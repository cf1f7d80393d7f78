import A2AEvents.ForStd.PageWalk
import A2AEvents.Spec.EventStoreInvariant

/-!
# What a read returns

A read of a well-formed log returns the first events of the requested range, at least one
of them if there is any, and the cursor of the last one exactly if more events follow.
Following these cursors therefore yields the whole range, in order and once each.

## Key results

- `EventStore.read_eq`: the page of a read
- `EventStore.exists_walk`: following the cursors of the pages
-/

namespace A2AEvents

/-- The offset that the cursor of a record spells. -/
def EventRecord.offset (r : EventRecord) : Nat :=
  match Cursor.offsetOf r.cursor with
  | .ok o => o
  | .error _ => 0

theorem EventRecord.LiesAt.offset_eq {r : EventRecord} {name : String} {o : Nat} (hne : name ≠ "")
    (h : r.LiesAt name o) : r.offset = o := by
  simp [EventRecord.offset, Cursor.offsetOf_encode hne h.cursor]

namespace EventStore

/-! ## Pages -/

/-- Whether a record lies inside the range of a read. -/
def inRange (start : Int) (toOffset : Option Nat) (r : EventRecord) : Bool :=
  start < r.offset && toOffset.all fun t => r.offset ≤ t

/-- A page of `limit` records, and of one at least: the first ones of `rest`, with the cursor of
    the last one if more follow. -/
def firstPage (limit : Int) (rest : List EventRecord) : List EventRecord × Option String :=
  let k := max 1 limit.toNat
  (rest.take k, if k < rest.length then (rest.take k).getLast?.map EventRecord.cursor else none)

/-- The records of a log are numbered in ascending order. -/
structure Ascending (l : List EventRecord) : Prop where
  offsetOf : ∀ r ∈ l, Cursor.offsetOf r.cursor = .ok r.offset
  sorted : l.Pairwise fun a b => a.offset < b.offset

theorem Wf.ascending {store : EventStore} (hwf : store.Wf) {topic : String} (hne : topic ≠ "")
    (now : Time) : Ascending (store.live now topic) := by
  have hat : ∀ r ∈ store.live now topic, ∃ o, r.LiesAt topic o := fun r hr =>
    (hwf.liesAt (mem_events_of_mem_live hr)).imp fun _ => And.right
  refine ⟨fun r hr => ?_, ?_⟩
  · obtain ⟨o, ho⟩ := hat r hr
    rw [ho.offset_eq hne]
    simpa using Cursor.offsetOf_encode hne ho.cursor
  · refine (hwf.live_sorted now topic).imp_of_mem ?_
    intro a b ha hb hlt
    obtain ⟨x, hx⟩ := hat a ha
    obtain ⟨y, hy⟩ := hat b hb
    rw [hx.offset_eq hne, hy.offset_eq hne]
    exact hlt x y hx hy

private theorem hasMore_eq {offset : Nat} {toOffset : Option Nat} {l : List EventRecord}
    (hoff : ∀ r ∈ l, Cursor.offsetOf r.cursor = .ok r.offset) :
    hasMore offset toOffset l = .ok (l.any (inRange offset toOffset)) := by
  induction l with
  | nil => rfl
  | cons r rest ih =>
    rw [hasMore, hoff r (by simp)]
    have htest : inRange (offset : Int) toOffset r =
        decide (r.offset > offset ∧ toOffset.all (fun t => decide (r.offset ≤ t))) := by
      rw [inRange, Bool.decide_and, Bool.decide_eq_true]
      congr 1
      exact decide_eq_decide.mpr (by omega)
    simp only [List.any_cons, htest]
    split
    · rename_i h
      simp [h]
    · rename_i h
      rw [ih fun q hq => hoff q (by simp [hq])]
      simp [h]

/-- Records in the range of a read that follow one of them, counted from that one. -/
private theorem inRange_after {start : Int} {toOffset : Option Nat} {r q : EventRecord}
    (hr : start < r.offset) (hq : r.offset < q.offset) :
    inRange r.offset toOffset q = inRange start toOffset q := by
  have h₁ : (r.offset : Int) < q.offset := by omega
  have h₂ : start < q.offset := by omega
  simp [inRange, hq, h₂]

/-- What `collect` has still to do: `done` is behind it, `l` lies ahead. -/
private theorem collect_eq {start : Int} {toOffset : Option Nat} {limit : Int}
    {l done out : List EventRecord} (h : Ascending (done ++ l)) :
    collect (done ++ l) start toOffset limit out l =
      let p := firstPage (limit - out.length) (l.filter (inRange start toOffset))
      .ok (out ++ p.1, p.2) := by
  induction l generalizing done out with
  | nil => simp [collect, firstPage]
  | cons r rest ih =>
    have hoff := h.offsetOf r (by simp)
    have hsorted := List.pairwise_append.mp h.sorted
    have hlater := (List.pairwise_cons.mp hsorted.2.1).1
    have hstep : done ++ r :: rest = (done ++ [r]) ++ rest := by simp
    rw [collect, hoff]
    simp only
    split
    · -- before the range: skipped
      rename_i hle
      have hout : inRange start toOffset r = false := by
        simp only [inRange, Bool.and_eq_false_iff, decide_eq_false_iff_not]
        exact .inl (by omega)
      rw [List.filter_cons_of_neg (by simp [hout]), hstep]
      exact ih (hstep ▸ h)
    split
    · -- past the range: so is everything that follows
      rename_i hgt hany
      obtain ⟨t, rfl, ht⟩ : ∃ t, toOffset = some t ∧ t < r.offset := by
        cases toOffset with
        | none => simp at hany
        | some t => exact ⟨t, rfl, by simpa using hany⟩
      have hnone : (r :: rest).filter (inRange start (some t)) = [] := by
        rw [List.filter_eq_nil_iff]
        intro q hq
        have hbeyond : t < q.offset := by
          rcases List.mem_cons.mp hq with rfl | hq
          · exact ht
          · exact Nat.lt_trans ht (hlater q hq)
        simp only [inRange, Option.all_some, Bool.and_eq_true, decide_eq_true_eq]
        omega
      simp [hnone, firstPage]
    · rename_i hgt hany
      have hin : inRange start toOffset r = true := by
        have hall : (toOffset.all fun t => decide (r.offset ≤ t)) = true := by
          cases toOffset with
          | none => rfl
          | some t => simpa using hany
        simp only [inRange, hall, Bool.and_true, decide_eq_true_eq]
        omega
      have hfilter : (r :: rest).filter (inRange start toOffset) =
          r :: rest.filter (inRange start toOffset) := List.filter_cons_of_pos hin
      have hlen : ((out ++ [r]).length : Int) = out.length + 1 := by simp
      split
      · -- the page is full; whether more follows shows in what lies ahead only
        rename_i hfull
        have hk : max 1 (limit - out.length).toNat = 1 := by omega
        have hmore : (done ++ r :: rest).any (inRange r.offset toOffset) =
            decide (1 < (r :: rest.filter (inRange start toOffset)).length) := by
          have hdone : ∀ q ∈ done ++ [r], inRange r.offset toOffset q = false := by
            intro q hq
            have hle : q.offset ≤ r.offset := by
              rcases List.mem_append.mp hq with hq | hq
              · exact Nat.le_of_lt (hsorted.2.2 q hq r (by simp))
              · rw [List.mem_singleton.mp hq]
            simp only [inRange, Bool.and_eq_false_iff, decide_eq_false_iff_not]
            exact .inl (by omega)
          have hahead : rest.any (inRange r.offset toOffset) = rest.any (inRange start toOffset) := by
            have hsame : ∀ q ∈ rest, inRange r.offset toOffset q = inRange start toOffset q :=
              fun q hq => inRange_after (Int.not_le.mp hgt) (hlater q hq)
            rw [List.any_eq_not_all_not, List.any_eq_not_all_not]
            congr 1
            rw [Bool.eq_iff_iff, List.all_eq_true, List.all_eq_true]
            exact forall₂_congr fun q hq => by rw [hsame q hq]
          have hbehind : (done ++ [r]).any (inRange r.offset toOffset) = false := by
            rw [List.any_eq_false]
            intro q hq
            simp [hdone q hq]
          rw [hstep, List.any_append, hbehind, Bool.false_or, hahead, Bool.eq_iff_iff,
            List.any_eq_true, decide_eq_true_eq, List.length_cons, Nat.lt_add_left_iff_pos,
            List.length_pos_iff_exists_mem]
          simp only [List.mem_filter]
        rw [hasMore_eq h.offsetOf]
        simp only [hmore, hfilter, firstPage, hk, List.take_succ_cons, List.take_zero,
          List.getLast?_singleton, Option.map_some, decide_eq_true_eq]
      · rename_i hroom
        rw [hstep, ih (hstep ▸ h), hfilter]
        have hk : max 1 (limit - out.length).toNat =
            max 1 (limit - (out ++ [r]).length).toNat + 1 := by omega
        simp only [firstPage, hk, List.take_succ_cons, List.length_cons, Nat.add_lt_add_iff_right,
          List.append_assoc, List.singleton_append]
        congr 2
        split
        · rename_i hlt
          -- the page goes on, so its last record is not the one just taken
          have hne : (rest.filter (inRange start toOffset)).take
              (max 1 (limit - (out ++ [r]).length).toNat) ≠ [] := by
            rw [Ne, List.take_eq_nil_iff]
            rintro (h0 | h0)
            · omega
            · simp [h0] at hlt
          rw [List.getLast?_cons_of_ne_nil hne]
        · rfl

/-- Collecting from the whole list. -/
theorem collect_page {l : List EventRecord} (h : Ascending l) (start : Int) (toOffset : Option Nat)
    (limit : Int) :
    collect l start toOffset limit [] l = .ok (firstPage limit (l.filter (inRange start toOffset))) := by
  have hall := @collect_eq start toOffset limit l [] [] h
  simpa using hall

/-- The page of a read. -/
theorem read_eq {store : EventStore} (hwf : store.Wf) {topic : String} (hne : topic ≠ "")
    {log : TopicLog} (hlog : store.logs.get? topic = some log) (now : Time)
    {fromCursor toCursor : Option String} (limit : Int) (hlatest : fromCursor ≠ some Cursor.latest) :
    store.read now topic fromCursor toCursor limit =
      match startOffset (store.live now topic) topic fromCursor, endOffset topic toCursor with
      | .error e, _ => .error e
      | .ok _, .error e => .error e
      | .ok start, .ok toOffset =>
        .ok (firstPage limit ((store.live now topic).filter (inRange start toOffset))) := by
  have hlive : store.live now topic = liveLog now log := by simp [live, hlog]
  have hasc := hwf.ascending hne now
  simp only [read, hlog, if_neg hlatest, ← hlive]
  cases startOffset (store.live now topic) topic fromCursor with
  | error e => rfl
  | ok start =>
    cases endOffset topic toCursor with
    | error e => rfl
    | ok toOffset =>
      exact collect_page hasc start toOffset limit

/-- Where a read after a cursor of the topic starts: the cursor must not be older than the
    oldest live event. -/
theorem startOffset_cursor {live : List EventRecord} (hasc : Ascending live) {topic c : String}
    {o : Nat} (hc : Cursor.offsetFor topic c = .ok o)
    (hnew : ∀ r, live.head? = some r → r.offset ≤ o) :
    startOffset live topic (some c) = .ok (o : Int) := by
  rw [startOffset, if_neg (Cursor.ne_sentinel_of_offsetFor hc (by decide)), hc]
  cases hhead : live.head? with
  | none => rfl
  | some oldest =>
    have hoff := hasc.offsetOf oldest (List.mem_of_head? hhead)
    have hle := hnew oldest hhead
    simp only [hoff]
    rw [if_neg (by omega)]

/-- An older cursor has expired. -/
theorem startOffset_expired {live : List EventRecord} (hasc : Ascending live) {topic c : String}
    {o : Nat} {oldest : EventRecord} (hc : Cursor.offsetFor topic c = .ok o)
    (hhead : live.head? = some oldest) (hold : o < oldest.offset) :
    startOffset live topic (some c) =
      raiseA2A .cursorExpired "The requested cursor is outside the topic retention window."
        [("fromCursor", .str c), ("oldestAvailableCursor", .str oldest.cursor)] := by
  have hoff := hasc.offsetOf oldest (List.mem_of_head? hhead)
  rw [startOffset, if_neg (Cursor.ne_sentinel_of_offsetFor hc (by decide)), hc]
  simp only [hhead, hoff]
  rw [if_pos hold]

/-! ## Following the cursors -/

/-- The pages that a client sees who follows the next cursors, put together. -/
inductive Pages (store : EventStore) (now : Time) (topic : String) (limit : Int) :
    String → List EventRecord → Prop where
  | last {c : String} {page : List EventRecord}
      (h : store.read now topic (some c) none limit = .ok (page, none)) :
      Pages store now topic limit c page
  | more {c next : String} {page rest : List EventRecord}
      (h : store.read now topic (some c) none limit = .ok (page, some next))
      (hrest : Pages store now topic limit next rest) :
      Pages store now topic limit c (page ++ rest)

/-- In an ascending list, what follows a page is what follows its last record. -/
theorem drop_eq_filter {l : List EventRecord} {k : Nat} {r : EventRecord}
    (hsorted : l.Pairwise fun a b => a.offset < b.offset)
    (hlast : (l.take k).getLast? = some r) :
    l.drop k = l.filter fun q => decide (r.offset < q.offset) := by
  have hsplit := hsorted
  rw [← List.take_append_drop k l, List.pairwise_append] at hsplit
  have hbefore : (l.take k).filter (fun q => decide (r.offset < q.offset)) = [] := by
    rw [List.filter_eq_nil_iff]
    intro q hq
    obtain ⟨front, hfront⟩ := List.getLast?_eq_some_iff.mp hlast
    rw [hfront] at hq
    have hord := hsplit.1
    rw [hfront, List.pairwise_append] at hord
    rcases List.mem_append.mp hq with hq | hq
    · have := hord.2.2 q hq r (by simp)
      simp only [decide_eq_true_eq]
      omega
    · simp [List.mem_singleton.mp hq]
  have hafter : (l.drop k).filter (fun q => decide (r.offset < q.offset)) = l.drop k := by
    rw [List.filter_eq_self]
    intro q hq
    simpa using hsplit.2.2 r (List.mem_of_getLast? hlast) q hq
  conv_rhs => rw [← List.take_append_drop k l]
  rw [List.filter_append, hbefore, hafter, List.nil_append]

/-- A start of a read that is accepted, and the offset behind which it begins: no cursor, the word
    `earliest`, or a cursor of the topic that is not older than the oldest live event. -/
inductive ReadStart (store : EventStore) (now : Time) (topic : String) : Option String → Int → Prop where
  | none : ReadStart store now topic none (-1)
  | earliest : ReadStart store now topic (some Cursor.earliest) (-1)
  | cursor {c : String} {o : Nat} (hc : Cursor.offsetFor topic c = .ok o)
      (hnew : ∀ r, (store.live now topic).head? = some r → r.offset ≤ o) :
      ReadStart store now topic (some c) o

/-- An end of a read, and the last offset in it: no cursor, or one of the topic. -/
inductive ReadEnd (topic : String) : Option String → Option Nat → Prop where
  | none : ReadEnd topic none none
  | cursor {c : String} {o : Nat} (hc : Cursor.offsetFor topic c = .ok o) :
      ReadEnd topic (some c) (some o)

theorem ReadEnd.endOffset {topic : String} {toCursor : Option String} {toOffset : Option Nat}
    (h : ReadEnd topic toCursor toOffset) : endOffset topic toCursor = .ok toOffset := by
  cases h with
  | none => rfl
  | cursor hc =>
    rw [EventStore.endOffset, if_neg (Cursor.ne_sentinel_of_offsetFor hc (by decide)), hc]
    rfl

section Walk

variable {store : EventStore} {topic : String} {log : TopicLog} {now : Time}
  {fromCursor toCursor : Option String} {start : Int} {toOffset : Option Nat}

theorem ReadStart.startOffset (h : ReadStart store now topic fromCursor start)
    (hasc : Ascending (store.live now topic)) :
    startOffset (store.live now topic) topic fromCursor = .ok start := by
  cases h with
  | none => rfl
  | earliest => rw [EventStore.startOffset, if_pos rfl]
  | cursor hc hnew => exact startOffset_cursor hasc hc hnew

theorem ReadStart.ne_latest (h : ReadStart store now topic fromCursor start) :
    fromCursor ≠ some Cursor.latest := by
  cases h with
  | none => decide
  | earliest => decide
  | cursor hc _ => exact fun h => Cursor.ne_sentinel_of_offsetFor hc (by decide) (Option.some.inj h)

/-- A read takes the first events of its range. -/
theorem read_start (hwf : store.Wf) (hne : topic ≠ "") (hlog : store.logs.get? topic = some log)
    (hstart : ReadStart store now topic fromCursor start) (hend : ReadEnd topic toCursor toOffset)
    (limit : Int) :
    store.read now topic fromCursor toCursor limit =
      .ok (firstPage limit ((store.live now topic).filter (inRange start toOffset))) := by
  rw [read_eq hwf hne hlog now limit hstart.ne_latest, hstart.startOffset (hwf.ascending hne now),
    hend.endOffset]

/-- A live event is a start for the events behind it. -/
theorem ReadStart.of_live (hwf : store.Wf) (hne : topic ≠ "") {r : EventRecord}
    (hr : r ∈ store.live now topic) : ReadStart store now topic (some r.cursor) r.offset := by
  have hasc := hwf.ascending hne now
  obtain ⟨x, -, hx⟩ := hwf.liesAt (mem_events_of_mem_live hr)
  constructor
  · rw [hx.offset_eq hne]
    simpa using Cursor.offsetFor_encode hne hx.cursor
  · intro q hq
    obtain ⟨rest, hrest⟩ := List.head?_eq_some_iff.mp hq
    have hsorted := hasc.sorted
    rw [hrest] at hr hsorted
    rcases List.mem_cons.mp hr with rfl | hr
    · exact Nat.le_refl _
    · exact Nat.le_of_lt ((List.pairwise_cons.mp hsorted).1 r hr)

/-- Following the cursors of the pages yields the whole range: pages of `limit` events, and of one at
    least. -/
theorem exists_walk (hwf : store.Wf) (hne : topic ≠ "") (hlog : store.logs.get? topic = some log)
    (hstart : ReadStart store now topic fromCursor start) (hend : ReadEnd topic toCursor toOffset)
    (limit : Int) :
    ∃ pages, PageWalk (fun from_ => store.read now topic from_ toCursor limit) fromCursor pages ∧
      pages.flatten = (store.live now topic).filter (inRange start toOffset) ∧
      ∀ page ∈ pages, page.length ≤ max 1 limit.toNat := by
  have hasc := hwf.ascending hne now
  let k := max 1 limit.toNat
  -- ahead of a start lies its range
  let Ahead : Option String → List EventRecord → Prop := fun from_ rest =>
    ∃ start, ReadStart store now topic from_ start ∧
      rest = (store.live now topic).filter (inRange start toOffset)
  apply @PageWalk.exists_of_ahead _ _ _ _ _ k (by omega) Ahead
  · rintro from_ rest ⟨start, hstart, rfl⟩ hlen
    show store.read now topic from_ toCursor limit = _
    rw [read_start hwf hne hlog hstart hend]
    simp only [firstPage]
    rw [if_neg (Nat.not_lt.mpr hlen), List.take_of_length_le hlen]
  · rintro from_ rest ⟨start, hstart, rfl⟩ hlen
    let rest := (store.live now topic).filter (inRange start toOffset)
    have hk : rest.take k ≠ [] := by
      rw [Ne, List.take_eq_nil_iff]
      rintro (h0 | h0)
      · omega
      · rw [show (store.live now topic).filter _ = [] from h0] at hlen
        simp at hlen
    obtain ⟨r, hr⟩ : ∃ r, (rest.take k).getLast? = some r :=
      ⟨_, List.getLast?_eq_some_getLast hk⟩
    have hmem : r ∈ rest := List.mem_of_mem_take (List.mem_of_getLast? hr)
    obtain ⟨hlive, hin⟩ := List.mem_filter.mp hmem
    refine ⟨r.cursor, ?_, r.offset, ReadStart.of_live hwf hne hlive, ?_⟩
    · show store.read now topic from_ toCursor limit = _
      rw [read_start hwf hne hlog hstart hend]
      show Except.ok (rest.take k, if k < rest.length then (rest.take k).getLast?.map EventRecord.cursor else none) = _
      rw [if_pos hlen, hr]
      rfl
    · -- what the page leaves out is what follows its last event
      show rest.drop k = _
      rw [drop_eq_filter (hasc.sorted.filter _) hr, List.filter_filter]
      apply List.filter_congr
      intro q _
      have hlt : start < r.offset := by
        simp only [inRange, Bool.and_eq_true, decide_eq_true_eq] at hin
        exact hin.1
      by_cases hq : r.offset < q.offset
      · rw [inRange_after hlt hq]
        simp [hq]
      · simp [inRange, hq]
  · exact ⟨start, hstart, rfl⟩

/-- The pages of a walk without an end, put together. -/
theorem Pages.of_walk {limit : Int} {pages : List (List EventRecord)}
    (h : PageWalk (fun from_ => store.read now topic from_ none limit) fromCursor pages) {c : String}
    (hc : fromCursor = some c) : Pages store now topic limit c pages.flatten := by
  induction h generalizing c with
  | last h =>
    subst hc
    rw [List.flatten_singleton]
    exact .last h
  | more h _ ih =>
    subst hc
    rw [List.flatten_cons]
    exact .more h (ih rfl)

/-- Following the cursors of the pages yields every live event after the first cursor. -/
theorem pages_live (hwf : store.Wf) (hne : topic ≠ "") (hlog : store.logs.get? topic = some log)
    (now : Time) (limit : Int) {c : String} {o : Nat} (hc : Cursor.offsetFor topic c = .ok o)
    (hnew : ∀ r, (store.live now topic).head? = some r → r.offset ≤ o) :
    Pages store now topic limit c
      ((store.live now topic).filter fun r => decide (o < r.offset)) := by
  obtain ⟨pages, hwalk, hflat, -⟩ := exists_walk hwf hne hlog (.cursor hc hnew) .none limit
  have hrange : (store.live now topic).filter (inRange (o : Int) none) =
      (store.live now topic).filter fun r => decide (o < r.offset) := by
    apply List.filter_congr
    intro r _
    simp [inRange]
  rw [← hrange, ← hflat]
  exact .of_walk hwalk rfl

end Walk

end EventStore

end A2AEvents
