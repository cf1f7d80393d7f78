import A2AEvents.Spec.AgentCardCorrect
import A2AEvents.Spec.AppendsCorrect
import A2AEvents.Spec.AuthorizerCorrect
import A2AEvents.Spec.CopiesCorrect
import A2AEvents.Spec.DecodingCorrect
import A2AEvents.Spec.EndToEnd
import A2AEvents.Spec.EnvelopeCorrect
import A2AEvents.Spec.HighWaterCorrect
import A2AEvents.Spec.HttpDeliveryCorrect
import A2AEvents.Spec.IntegersAgree
import A2AEvents.Spec.KeysCorrect
import A2AEvents.Spec.LeaseCorrect
import A2AEvents.Spec.ListsCorrect
import A2AEvents.Spec.PostgresAgrees
import A2AEvents.Spec.PostgresClaimsCorrect
import A2AEvents.Spec.PostgresReadsCorrect
import A2AEvents.Spec.QuotaKept
import A2AEvents.Spec.RateLimiterCorrect
import A2AEvents.Spec.RecoveryCorrect
import A2AEvents.Spec.RetriesCorrect
import A2AEvents.Spec.RoutesCorrect
import A2AEvents.Spec.SearchesCorrect
import A2AEvents.Spec.StartsCorrect
