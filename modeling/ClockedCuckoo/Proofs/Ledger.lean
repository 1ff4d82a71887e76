import Mathlib.Algebra.GroupWithZero.Nat
import Mathlib.Data.Finset.Prod
import ClockedCuckoo.Proofs.Exclusion
import ClockedCuckoo.Proofs.Totals

/-! The statistics balance with what a run can be seen to do: the requests accepted, the outcomes
told, and the slots that change under each insert and delete. -/

namespace ClockedCuckoo

namespace Slot

def Displaced (s s' : Slot) : Prop :=
  s.valid = true ∧ s'.valid = true ∧ s.key ≠ s'.key

def Emptied (s s' : Slot) : Prop :=
  s.valid = true ∧ s'.valid = false

instance : DecidableRel Displaced :=
  fun _ _ => inferInstanceAs (Decidable (_ ∧ _ ∧ _))

instance : DecidableRel Emptied :=
  fun _ _ => inferInstanceAs (Decidable (_ ∧ _))

theorem not_displaced_self (s : Slot) : ¬Displaced s s :=
  fun h => h.2.2 rfl

theorem not_emptied_self (s : Slot) : ¬Emptied s s :=
  fun h => Bool.noConfusion (h.1.symm.trans h.2)

end Slot

namespace Engine

def cells (e : Engine) : Finset (Nat × Nat) :=
  Finset.range e.config.banks ×ˢ Finset.range e.config.rows

def changed (e e' : Engine) (r : Slot → Slot → Prop) [DecidableRel r] : Finset (Nat × Nat) :=
  e.cells.filter fun x => r (e.slotAt x.1 x.2) (e'.slotAt x.1 x.2)

variable {e e' : Engine} {keys : List Key} {lines : Lines} {t row : Nat}

section Changed

variable {r : Slot → Slot → Prop} [DecidableRel r]

theorem changed_of_sameSlots (hirr : ∀ s, ¬r s s) (h : SameSlots e e') : e.changed e' r = ∅ := by
  rw [changed, Finset.filter_eq_empty_iff]
  intro x _
  rw [h.slotAt_eq]
  exact hirr _

theorem mem_cells (h : e.Built keys) (ht : t < e.lanes.length) (key : Key) :
    (t, e.home t key) ∈ e.cells := by
  have hl := List.getElem?_eq_getElem ht
  have hanswers := h.answers _ (List.mem_of_getElem? hl)
  rw [cells, Finset.mem_product, Finset.mem_range, Finset.mem_range, home_of_lane hl]
  exact ⟨h.lanes_length ▸ ht, Bank.home_lt hanswers h.rows_pos key⟩

theorem changed_overwritten (hirr : ∀ s, ¬r s s) (h : e.Built keys)
    (hl : e'.lanes = e.overwritten t) (ht : t < e.lanes.length) : e.changed e' r =
      if r (e.readAt t e.staging.key).slot e.staging.slot then {(t, e.home t e.staging.key)}
      else ∅ := by
  ext ⟨s, i⟩
  rw [changed, Finset.mem_filter, slotAt_overwritten h hl ht]
  by_cases hc : s = t ∧ i = e.home t e.staging.key
  · obtain ⟨rfl, rfl⟩ := hc
    rw [if_pos ⟨rfl, rfl⟩]
    split
    · exact iff_of_true ⟨mem_cells h ht e.staging.key, ‹_›⟩ (Finset.mem_singleton_self _)
    · exact iff_of_false (fun hmem => absurd hmem.2 ‹_›) (Finset.notMem_empty _)
  · rw [if_neg hc]
    refine iff_of_false (fun hmem => hirr _ hmem.2) fun hmem => hc ?_
    split at hmem
    · cases Finset.mem_singleton.1 hmem
      exact ⟨rfl, rfl⟩
    · cases Finset.notMem_empty _ hmem

theorem displaced_swept (h : e.Built keys)
    (hl : e'.lanes = e.lanes.map (·.cycle { write := some (.clear row) }))
    (hrow : row < e.config.rows) : e.changed e' Slot.Displaced = ∅ := by
  rw [changed, Finset.filter_eq_empty_iff]
  intro x _
  rw [slotAt_swept h hl hrow]
  split
  · rintro ⟨-, hv, -⟩
    cases hv
  · exact Slot.not_displaced_self _

end Changed

end Engine

/-- An exclusive request with the cycles since its acceptance, up to that of the next one. -/
structure Span where
  request : Request
  beats : List Beat

namespace Beat

def exclusive? (b : Beat) : Option Request :=
  b.accepted?.filter Request.isExclusive

/-- The entries that the cycles have written over. -/
def evictions (beats : List Beat) : Nat :=
  (beats.map fun b => (b.start.changed b.after Slot.Displaced).card).sum

def empties (beats : List Beat) : Bool :=
  beats.any fun b => decide (b.start.changed b.after Slot.Emptied).Nonempty

theorem evictions_snoc (beats : List Beat) (b : Beat) : evictions (beats ++ [b]) =
    evictions beats + (b.start.changed b.after Slot.Displaced).card := by
  rw [evictions, evictions, List.map_append, List.sum_append, List.map_singleton,
    List.sum_singleton]

theorem evictions_undisplaced {b : Beat} (h : b.start.changed b.after Slot.Displaced = ∅)
    (beats : List Beat) : evictions (beats ++ [b]) = evictions beats := by
  rw [evictions_snoc, h]
  rfl

theorem chain_of_not_evicts {b : Beat} (h : b.evicts = false) : b.chain = 0 := by
  rw [chain, h]
  rfl

theorem empties_snoc (beats : List Beat) (b : Beat) : empties (beats ++ [b]) =
    (empties beats || decide (b.start.changed b.after Slot.Emptied).Nonempty) := by
  rw [empties, empties, List.any_append, List.any_cons, List.any_nil, Bool.or_false]

end Beat

namespace Span

def extend (spans : List Span) (b : Beat) : List Span :=
  match b.exclusive? with
  | some r => ⟨r, []⟩ :: spans
  | none => spans.modifyHead fun s => ⟨s.request, s.beats ++ [b]⟩

/-- The exclusive requests of a run, the last one first. -/
def ofBeats (beats : List Beat) : List Span :=
  beats.foldl extend []

def deleteHits (spans : List Span) : Nat :=
  spans.countP fun s => s.request.operation == .delete && Beat.empties s.beats

def longestChain (spans : List Span) : Nat :=
  ((spans.filter (·.request.operation == .insert)).map (Beat.evictions ·.beats)).foldr max 0

def current (spans : List Span) : Nat :=
  match spans with
  | s :: _ => Beat.evictions s.beats
  | [] => 0

variable {s : Span} {spans : List Span} {b : Beat} {r : Request}

theorem ofBeats_snoc (beats : List Beat) (b : Beat) :
    ofBeats (beats ++ [b]) = extend (ofBeats beats) b :=
  List.foldl_append

theorem extend_of_exclusive (h : b.exclusive? = some r) : extend spans b = ⟨r, []⟩ :: spans := by
  simp only [extend, h]

theorem extend_nil (h : b.exclusive? = none) : extend [] b = [] := by
  simp only [extend, h, List.modifyHead_nil]

theorem extend_cons (h : b.exclusive? = none) :
    extend (s :: spans) b = ⟨s.request, s.beats ++ [b]⟩ :: spans := by
  simp only [extend, h, List.modifyHead_cons]

theorem longestChain_cons (s : Span) (spans : List Span) : longestChain (s :: spans) =
    max (if s.request.operation = .insert then Beat.evictions s.beats else 0)
      (longestChain spans) := by
  rw [longestChain, longestChain, List.filter_cons]
  split <;> split <;> simp_all

theorem deleteHits_cons (s : Span) (spans : List Span) : deleteHits (s :: spans) =
    deleteHits spans + if s.request.operation = .delete ∧ Beat.empties s.beats then 1 else 0 := by
  rw [deleteHits, deleteHits, List.countP_cons]
  simp

section Undisplaced

variable (hx : b.exclusive? = none) (hd : b.start.changed b.after Slot.Displaced = ∅)

include hx hd

theorem current_extend (spans : List Span) : current (extend spans b) = current spans := by
  cases spans with
  | nil => rw [extend_nil hx]
  | cons s spans =>
    rw [extend_cons hx]
    exact Beat.evictions_undisplaced hd s.beats

theorem longestChain_extend (spans : List Span) :
    longestChain (extend spans b) = longestChain spans := by
  cases spans with
  | nil => rw [extend_nil hx]
  | cons s spans =>
    rw [extend_cons hx, longestChain_cons, longestChain_cons, Beat.evictions_undisplaced hd]

end Undisplaced

theorem deleteHits_extend (hx : b.exclusive? = none) (h : ∀ s ∈ spans.head?,
      s.request.operation = .delete → Beat.empties (s.beats ++ [b]) = Beat.empties s.beats) :
    deleteHits (extend spans b) = deleteHits spans := by
  cases spans with
  | nil => rw [extend_nil hx]
  | cons s spans =>
    rw [extend_cons hx, deleteHits_cons, deleteHits_cons]
    by_cases hop : s.request.operation = .delete
    · rw [h s rfl hop]
    · simp [hop]

end Span

namespace Engine

def underway (e : Engine) : Operation :=
  if e.phase = .cleaning then .clean
  else if e.staging.origin = .insert then .insert
  else .delete

/-- The spans of the run so far, told from the registers and from the recorder. -/
structure Spanned (beats : List Beat) (e : Engine) : Prop where
  rounds_eq : e.rounds = Span.current (Span.ofBeats beats)
  evictions_eq : beats.countP Beat.evicts = Beat.evictions beats
  deleteHits_eq : beats.countP Beat.deletes = Span.deleteHits (Span.ofBeats beats)
  longestChain_eq : (beats.map Beat.chain).foldl max 0 = Span.longestChain (Span.ofBeats beats)
  busy : e.phase ≠ .idle → ∃ s spans, Span.ofBeats beats = s :: spans ∧
    s.request.operation = e.underway ∧ (e.underway = .delete → Beat.empties s.beats = false)

namespace Spanned

variable {beats : List Beat} {b : Beat} {keys : List Key}

theorem countP_snoc {p : Beat → Bool} : (beats ++ [b]).countP p = beats.countP p + (p b).toNat := by
  rw [List.countP_append, countP_one]

theorem foldl_chain_snoc : ((beats ++ [b]).map Beat.chain).foldl max 0 =
    max ((beats.map Beat.chain).foldl max 0) b.chain := by
  rw [List.map_append, List.foldl_append]
  rfl

theorem evictions_snoc (h : Spanned beats b.start)
    (hev : b.evicts.toNat = (b.start.changed b.after Slot.Displaced).card) :
    (beats ++ [b]).countP Beat.evicts = Beat.evictions (beats ++ [b]) := by
  rw [countP_snoc, h.evictions_eq, Beat.evictions_snoc, hev]

theorem empties_eq (h : Spanned beats b.start)
    (hm : b.start.changed b.after Slot.Emptied = ∅ ∨ b.start.phase = .cleaning) {s : Span}
    (hs : s ∈ (Span.ofBeats beats).head?) (hop : s.request.operation = .delete) :
    Beat.empties (s.beats ++ [b]) = Beat.empties s.beats := by
  rw [Beat.empties_snoc]
  rcases hm with hm | hm
  · simp [hm]
  · obtain ⟨s', spans, hcons, hclean, -⟩ := h.busy (by simp [hm])
    rw [hcons, List.head?_cons, Option.mem_some_iff] at hs
    rw [hs, hop, underway, if_pos hm] at hclean
    cases hclean

/-- A cycle that neither begins nor ends an operation and evicts nothing. -/
theorem quiet (h : Spanned beats b.start) (hx : b.exclusive? = none)
    (hd : b.start.changed b.after Slot.Displaced = ∅)
    (hm : b.start.changed b.after Slot.Emptied = ∅ ∨ b.start.phase = .cleaning)
    (hev : b.evicts = false) (hdel : b.deletes = false) (hr : b.after.rounds = b.start.rounds)
    (hbusy : b.after.phase ≠ .idle → b.start.phase ≠ .idle ∧
      b.after.underway = b.start.underway) : Spanned (beats ++ [b]) b.after where
  rounds_eq := by
    rw [hr, h.rounds_eq, Span.ofBeats_snoc, Span.current_extend hx hd]
  evictions_eq := h.evictions_snoc (by simp [hev, hd])
  deleteHits_eq := by
    have hhits := Span.deleteHits_extend hx fun s hs hop => h.empties_eq hm hs hop
    rw [countP_snoc, hdel, h.deleteHits_eq, Span.ofBeats_snoc, hhits]
    rfl
  longestChain_eq := by
    rw [foldl_chain_snoc, h.longestChain_eq, Beat.chain_of_not_evicts hev, Span.ofBeats_snoc,
      Span.longestChain_extend hx hd, Nat.max_zero]
  busy hne := by
    obtain ⟨hp, hop⟩ := hbusy hne
    obtain ⟨s, spans, hcons, hsop, hnone⟩ := h.busy hp
    refine ⟨⟨s.request, s.beats ++ [b]⟩, spans, ?_, hsop.trans hop.symm, fun hdelete => ?_⟩
    · rw [Span.ofBeats_snoc, hcons, Span.extend_cons hx]
    · rw [hop] at hdelete
      have hs : s ∈ (Span.ofBeats beats).head? := by rw [hcons, List.head?_cons, Option.mem_some_iff]
      rw [h.empties_eq hm hs (hsop.trans hdelete)]
      exact hnone hdelete

theorem begins {r : Request} (h : Spanned beats b.start) (hx : b.exclusive? = some r)
    (hd : b.start.changed b.after Slot.Displaced = ∅) (hev : b.evicts = false)
    (hdel : b.deletes = false) (hr : b.after.rounds = 0)
    (hop : b.after.underway = r.operation) : Spanned (beats ++ [b]) b.after where
  rounds_eq := by
    rw [Span.ofBeats_snoc, Span.extend_of_exclusive hx, hr]
    rfl
  evictions_eq := h.evictions_snoc (by simp [hev, hd])
  deleteHits_eq := by
    rw [countP_snoc, hdel, h.deleteHits_eq, Span.ofBeats_snoc, Span.extend_of_exclusive hx,
      Span.deleteHits_cons]
    simp [Beat.empties]
  longestChain_eq := by
    rw [foldl_chain_snoc, h.longestChain_eq, Span.ofBeats_snoc, Span.extend_of_exclusive hx,
      Span.longestChain_cons, Beat.chain_of_not_evicts hev]
    simp [Beat.evictions]
  busy _ := by
    refine ⟨⟨r, []⟩, Span.ofBeats beats, ?_, hop.symm, fun _ => rfl⟩
    rw [Span.ofBeats_snoc, Span.extend_of_exclusive hx]

theorem evicts (h : Spanned beats b.start) (hx : b.exclusive? = none)
    (hd : (b.start.changed b.after Slot.Displaced).card = 1)
    (hev : b.evicts = true) (hdel : b.deletes = false) (hr : b.after.rounds = b.start.rounds + 1)
    (hp : b.start.phase ≠ .idle) (hop : b.start.underway = .insert)
    (hop' : b.after.underway = .insert) : Spanned (beats ++ [b]) b.after := by
  obtain ⟨s, spans, hs, hsop, -⟩ := h.busy hp
  rw [hop] at hsop
  have hs' : Span.ofBeats (beats ++ [b]) = ⟨s.request, s.beats ++ [b]⟩ :: spans := by
    rw [Span.ofBeats_snoc, hs, Span.extend_cons hx]
  have hrounds : b.start.rounds = Beat.evictions s.beats := by
    rw [h.rounds_eq, hs]
    rfl
  refine ⟨?_, ?_, ?_, ?_, fun _ => ⟨_, _, hs', hsop.trans hop'.symm, fun hdelete => ?_⟩⟩
  · rw [hs', Span.current, Beat.evictions_snoc, hd, hr, hrounds]
  · exact h.evictions_snoc (by simp [hev, hd])
  · rw [countP_snoc, hdel, h.deleteHits_eq, hs, hs', Span.deleteHits_cons, Span.deleteHits_cons]
    simp [hsop]
  · rw [foldl_chain_snoc, h.longestChain_eq, hs, hs', Span.longestChain_cons,
      Span.longestChain_cons, Beat.chain, hev, Beat.evictions_snoc, hd, hrounds]
    simp only [hsop, if_true]
    omega
  · rw [hop'] at hdelete
    cases hdelete

theorem deletes (h : Spanned beats b.start) (hx : b.exclusive? = none)
    (hd : b.start.changed b.after Slot.Displaced = ∅)
    (hm : (b.start.changed b.after Slot.Emptied).Nonempty)
    (hev : b.evicts = false) (hdel : b.deletes = true) (hr : b.after.rounds = b.start.rounds)
    (hp : b.start.phase ≠ .idle) (hop : b.start.underway = .delete)
    (hidle : b.after.phase = .idle) : Spanned (beats ++ [b]) b.after := by
  obtain ⟨s, spans, hs, hsop, hnone⟩ := h.busy hp
  rw [hop] at hsop
  refine ⟨?_, h.evictions_snoc (by simp [hev, hd]), ?_, ?_, fun hne => absurd hidle hne⟩
  · rw [hr, h.rounds_eq, Span.ofBeats_snoc, Span.current_extend hx hd]
  · rw [countP_snoc, hdel, h.deleteHits_eq, hs, Span.ofBeats_snoc, hs, Span.extend_cons hx,
      Span.deleteHits_cons, Span.deleteHits_cons, Beat.empties_snoc, hnone hop]
    simp [hsop, hm]
  · rw [foldl_chain_snoc, h.longestChain_eq, Beat.chain_of_not_evicts hev, Span.ofBeats_snoc,
      Span.longestChain_extend hx hd, Nat.max_zero]

end Spanned

section Step

variable {e e' : Engine} {keys : List Key} {b : Beat} {beats : List Beat}

theorem exclusive?_of_busy (hg : b.Genuine) (hp : b.start.phase ≠ .idle) : b.exclusive? = none := by
  rw [Beat.exclusive?, Beat.accepted?]
  rcases hg.cases with ⟨d, hr⟩ | ⟨hr, -⟩
  · rw [hr]
    rfl
  · rw [hr, outputs_of_ne hp]
    rfl

theorem evicts_of_busy (hg : b.Genuine) (hp : b.start.phase ≠ .idle) (hok : b.result = .ok {}) :
    b.evicts = decide (b.after.rounds ≠ b.start.rounds) := by
  rcases hg.cases with ⟨d, hr⟩ | ⟨-, hafter⟩
  · cases hok.symm.trans hr
  · have hrounds : (b.start.advance b.lines).rounds = b.start.nextRounds b.lines := rfl
    rw [hafter, hrounds, nextRounds, exclusiveAccepted, accepted?_of_ne hp, Beat.evicts, hok]
    cases b.start.evicted? <;> simp [Except.isOk, Except.toBool]

theorem roundDone_of_writing (hg : b.Genuine) (hp : b.start.phase = .writing)
    (hok : b.result = .ok {}) : b.start.roundDone = decide (b.after.phase ≠ .writing) := by
  rcases hg.cases with ⟨d, hr⟩ | ⟨-, hafter⟩
  · cases hok.symm.trans hr
  · rw [hafter, advance_of_writing hp, roundDone, hp]
    cases b.start.writeDone with
    | false => rfl
    | true => cases b.start.staging.origin == .insert && !b.start.choice.final <;> rfl

theorem found_iff_not_misses (ha : e.Accounted keys) (hp : e.phase = .writing) :
    e.choice.found = true ↔ ¬e.Misses e.staging.key := by
  rcases ha.choice_cases hp with ⟨t, ht, hhit, hc⟩ | ⟨hmiss, t, -, -, -, hc⟩ | ⟨hmiss, -, t, -, hc⟩
  · rw [hc]
    refine iff_of_true rfl fun hmiss => ?_
    rw [hmiss t ht] at hhit
    cases hhit
  · rw [hc]
    exact iff_of_false Bool.false_ne_true (not_not_intro hmiss)
  · rw [hc]
    exact iff_of_false Bool.false_ne_true (not_not_intro hmiss)

theorem deletes_of_ne (hp : b.start.phase ≠ .writing) : b.deletes = false := by
  rw [Beat.deletes, roundDone_of_ne hp, Bool.false_and, Bool.and_false, Bool.false_and]

theorem evicts_of_ne (hp : b.start.phase ≠ .writing) : b.evicts = false := by
  rw [Beat.evicts, evicted?_of_ne hp]
  exact Bool.and_false _

theorem deletes_of_insert (ho : b.start.staging.origin = .insert) : b.deletes = false := by
  rw [Beat.deletes, ho]
  simp

theorem deletes_of_stays (hg : b.Genuine) (hok : b.result = .ok {})
    (hphase : b.after.phase = b.start.phase) : b.deletes = false := by
  by_cases hw : b.start.phase = .writing
  · rw [Beat.deletes, roundDone_of_writing hg hw hok, hphase, hw]
    simp
  · exact deletes_of_ne hw

theorem deletes_of_misses (ha : b.start.Accounted keys) (hp : b.start.phase = .writing)
    (hmiss : b.start.Misses b.start.staging.key) : b.deletes = false := by
  have hfound : b.start.choice.found = false := by
    rw [Bool.eq_false_iff, Ne, found_iff_not_misses ha hp]
    exact not_not_intro hmiss
  rw [Beat.deletes, hfound, Bool.and_false]

theorem exclusive?_of_serve (hok : b.result = .ok (b.start.outputs b.lines)) :
    b.exclusive? = (b.start.accepted? b.lines).filter Request.isExclusive := by
  rw [Beat.exclusive?, Beat.accepted?, hok]
  rfl

theorem underway_served {req : Request} (hreq : e.accepted? lines = some req)
    (hexclusive : req.isExclusive = true) (r : Recorder) :
    (e.served lines r).underway = req.operation := by
  rw [underway, served, hreq]
  cases req with
  | lookup key => cases hexclusive
  | clean | delete key | insert key data =>
    simp [Phase.started, Staging.take, Request.operation]

namespace Spanned

theorem of_sameSlots (h : Spanned beats b.start) (hx : b.exclusive? = none)
    (hs : SameSlots b.start b.after) (hev : b.evicts = false) (hdel : b.deletes = false)
    (hr : b.after.rounds = b.start.rounds)
    (hbusy : b.after.phase ≠ .idle → b.start.phase ≠ .idle ∧
      b.after.underway = b.start.underway) : Spanned (beats ++ [b]) b.after :=
  h.quiet hx (changed_of_sameSlots Slot.not_displaced_self hs)
    (.inl (changed_of_sameSlots Slot.not_emptied_self hs)) hev hdel hr hbusy

theorem serve (h : Spanned beats b.start) (hp : b.start.phase = .idle) {r : Recorder}
    (hafter : b.after = b.start.served b.lines r)
    (hok : b.result = .ok (b.start.outputs b.lines)) : Spanned (beats ++ [b]) b.after := by
  have hs : SameSlots b.start b.after := hafter ▸ sameSlots_served b.start b.lines r
  have hev : b.evicts = false := evicts_of_ne (by simp [hp])
  have hdel : b.deletes = false := deletes_of_ne (by simp [hp])
  have hrounds : b.after.rounds =
      if b.start.exclusiveAccepted b.lines then 0 else b.start.rounds := by
    rw [hafter]
    rfl
  cases hxa : b.start.exclusiveAccepted b.lines with
  | false =>
    have hx : b.exclusive? = none := by
      rw [exclusive?_of_serve hok, Option.filter_eq_none_iff]
      intro req hreq
      rw [exclusiveAccepted, hreq, Option.any_some] at hxa
      simp [hxa]
    have hidle : b.after.phase = .idle := by
      rw [hafter]
      exact started_of_no_exclusive hxa
    exact h.of_sameSlots hx hs hev hdel (by simp [hrounds, hxa]) fun hne => absurd hidle hne
  | true =>
    obtain ⟨req, hreq, hexclusive, -, -⟩ := accepted?_of_exclusiveAccepted hxa
    have hx : b.exclusive? = some req := by
      rw [exclusive?_of_serve hok, hreq, Option.filter_some, hexclusive, if_pos rfl]
    have hop : b.after.underway = req.operation := hafter ▸ underway_served hreq hexclusive r
    exact h.begins hx (changed_of_sameSlots Slot.not_displaced_self hs) hev hdel
      (by simp [hrounds, hxa]) hop

theorem fail (h : Spanned beats b.start) {d : Duplicate} (hd : b.result = .error d)
    (hp : b.start.phase ≠ .writing) (hs : SameSlots b.start b.after)
    (hr : b.after.rounds = b.start.rounds) (hidle : b.after.phase = .idle) :
    Spanned (beats ++ [b]) b.after := by
  have hx : b.exclusive? = none := by
    rw [Beat.exclusive?, Beat.accepted?, hd]
    rfl
  exact h.of_sameSlots hx hs (evicts_of_ne hp) (deletes_of_ne hp) hr fun hne => absurd hidle hne

section Busy

variable (h : Spanned beats b.start) (hg : b.Genuine) (hok : b.result = .ok {})

include h hg hok

/-- A cycle in the course of an operation that evicts nothing and ends no delete. -/
theorem goesOn (hp : b.start.phase ≠ .idle)
    (hd : b.start.changed b.after Slot.Displaced = ∅)
    (hm : b.start.changed b.after Slot.Emptied = ∅ ∨ b.start.phase = .cleaning)
    (hdel : b.deletes = false) (hr : b.after.rounds = b.start.rounds)
    (hop : b.after.phase ≠ .idle → b.after.underway = b.start.underway) :
    Spanned (beats ++ [b]) b.after := by
  have hev : b.evicts = false := by simp [evicts_of_busy hg hp hok, hr]
  exact h.quiet (exclusive?_of_busy hg hp) hd hm hev hdel hr fun hne => ⟨hp, hop hne⟩

theorem goesOn_of_sameSlots (hp : b.start.phase ≠ .idle) (hs : SameSlots b.start b.after)
    (hdel : b.deletes = false) (hr : b.after.rounds = b.start.rounds)
    (hop : b.after.phase ≠ .idle → b.after.underway = b.start.underway) :
    Spanned (beats ++ [b]) b.after :=
  h.goesOn hg hok hp (changed_of_sameSlots Slot.not_displaced_self hs)
    (.inl (changed_of_sameSlots Slot.not_emptied_self hs)) hdel hr hop

theorem sweep (ha : b.start.Accounted keys) (hp : b.start.phase = .cleaning)
    (hl : b.after.lanes = b.start.lanes.map (·.cycle { write := some (.clear b.start.sweep.row) }))
    (hr : b.after.rounds = b.start.rounds)
    (hphase : b.after.phase = .idle ∨ b.after.phase = .cleaning) :
    Spanned (beats ++ [b]) b.after := by
  refine h.goesOn hg hok (by simp [hp]) (displaced_swept ha.toBuilt hl ha.row_lt) (.inr hp)
    (deletes_of_ne (by simp [hp])) hr fun hne => ?_
  rw [underway, underway, hphase.resolve_left hne, hp]
  rfl

variable {t : Nat} (ha : b.start.Accounted keys) (hp : b.start.phase = .writing)
  (ht : t < b.start.lanes.length) (hl : b.after.lanes = b.start.overwritten t)

include ha hp ht hl

/-- The staged entry takes the place of its key: nothing is displaced, and a delete empties the
slot. -/
theorem update (hhit : (b.start.readAt t b.start.staging.key).found = true)
    (hr : b.after.rounds = b.start.rounds) (hidle : b.after.phase = .idle) :
    Spanned (beats ++ [b]) b.after := by
  have hne : b.start.phase ≠ .idle := by simp [hp]
  obtain ⟨hvalid, hkey⟩ := found_readAt.1 hhit
  have hd : b.start.changed b.after Slot.Displaced = ∅ := by
    rw [changed_overwritten Slot.not_displaced_self ha.toBuilt hl ht, if_neg]
    exact fun hdisplaced => hdisplaced.2.2 hkey
  have hstaged := ha.staged hne (by simp [hp])
  cases ho : b.start.staging.origin with
  | lookup => exact absurd ho (ha.busy hne).2
  | insert =>
    rw [ho] at hstaged
    refine h.goesOn hg hok hne hd (.inl ?_) (deletes_of_insert ho) hr fun hbusy => absurd hidle hbusy
    rw [changed_overwritten Slot.not_emptied_self ha.toBuilt hl ht, if_neg]
    exact fun hemptied => Bool.noConfusion (hemptied.2.symm.trans hstaged)
  | delete =>
    rw [ho] at hstaged
    have hm : (b.start.changed b.after Slot.Emptied).Nonempty := by
      rw [changed_overwritten Slot.not_emptied_self ha.toBuilt hl ht, if_pos ⟨hvalid, hstaged⟩]
      exact Finset.singleton_nonempty _
    have hfound : b.start.choice.found = true :=
      (found_iff_not_misses ha hp).2 fun hmiss => Bool.noConfusion (hhit.symm.trans (hmiss t ht))
    have hdel : b.deletes = true := by
      rw [Beat.deletes, roundDone_of_writing hg hp hok, hidle, hok, ho, hfound]
      rfl
    exact h.deletes (exclusive?_of_busy hg hne) hd hm (by simp [evicts_of_busy hg hne hok, hr]) hdel
      hr hne (by simp [underway, hp, ho]) hidle

theorem fill (ho : b.start.staging.origin = .insert)
    (hfree : (b.start.readAt t b.start.staging.key).occupied = false)
    (hr : b.after.rounds = b.start.rounds) (hidle : b.after.phase = .idle) :
    Spanned (beats ++ [b]) b.after := by
  have hunchanged : ∀ {r : Slot → Slot → Prop} [DecidableRel r], (∀ s, ¬r s s) →
      (∀ s s', r s s' → s.valid = true) → b.start.changed b.after r = ∅ := by
    intro r _ hirr hvalid
    rw [changed_overwritten hirr ha.toBuilt hl ht, if_neg]
    exact fun hr => Bool.noConfusion ((hvalid _ _ hr).symm.trans hfree)
  exact h.goesOn hg hok (by simp [hp]) (hunchanged Slot.not_displaced_self fun _ _ h => h.1)
    (.inl (hunchanged Slot.not_emptied_self fun _ _ h => h.1)) (deletes_of_insert ho) hr
    fun hne => absurd hidle hne

theorem evict (ho : b.start.staging.origin = .insert)
    (hmiss : b.start.Misses b.start.staging.key)
    (hfull : ∀ s < b.start.lanes.length,
      (b.start.readAt s b.start.staging.key).occupied = true)
    (hr : b.after.rounds = b.start.rounds + 1) (hop : b.after.underway = .insert) :
    Spanned (beats ++ [b]) b.after := by
  have hne : b.start.phase ≠ .idle := by simp [hp]
  have hdisplaced : Slot.Displaced (b.start.readAt t b.start.staging.key).slot
      b.start.staging.slot := by
    -- A slot of the same key would have been found.
    refine ⟨hfull t ht, ha.staged_valid (.inr (.inr hp)) ho, fun hkey => ?_⟩
    have hfound := found_readAt.2 ⟨hfull t ht, hkey⟩
    exact Bool.noConfusion (hfound.symm.trans (hmiss t ht))
  have hd : (b.start.changed b.after Slot.Displaced).card = 1 := by
    rw [changed_overwritten Slot.not_displaced_self ha.toBuilt hl ht, if_pos hdisplaced,
      Finset.card_singleton]
  exact h.evicts (exclusive?_of_busy hg hne) hd (by simp [evicts_of_busy hg hne hok, hr])
    (deletes_of_insert ho) hr hne (by simp [underway, hp, ho]) hop

end Busy

theorem step (h : Spanned beats b.start) (hg : b.Genuine)
    (hm : Move b.start b.lines b.after b.result) (ha : b.start.Accounted keys) :
    Spanned (beats ++ [b]) b.after := by
  generalize hafter : b.after = e' at hm
  generalize hresult : b.result = result at hm
  rw [← hafter]
  cases hm with
  | serve r hp hf => exact h.serve hp hafter hresult
  | refuse r d hp hf | abort r d hp hf =>
    refine h.fail hresult (by simp [hp]) ?_ (by rw [hafter]) (by simp [hafter, hp])
    exact hafter ▸ sameSlots_of_lanes_map rfl rfl
  | hold r hp =>
    have hs : SameSlots b.start b.after := hafter ▸ sameSlots_of_lanes_eq rfl
    exact h.goesOn_of_sameSlots hg hresult hp hs (deletes_of_stays hg hresult (by rw [hafter]))
      (by rw [hafter]) fun _ => hafter ▸ rfl
  | sweep r hp ht =>
    refine h.sweep hg hresult ha hp (by rw [hafter]) (by rw [hafter]) ?_
    rw [hafter]
    dsimp only
    split
    · exact .inl rfl
    · exact .inr rfl
  | probe r hp ht =>
    have hs : SameSlots b.start b.after := hafter ▸ sameSlots_of_lanes_map rfl rfl
    exact h.goesOn_of_sameSlots hg hresult (by simp [hp]) hs (deletes_of_ne (by simp [hp]))
      (by rw [hafter]) fun _ => by simp [hafter, underway, hp]
  | choose r hp hs =>
    have hs : SameSlots b.start b.after := hafter ▸ sameSlots_of_lanes_eq rfl
    exact h.goesOn_of_sameSlots hg hresult (by simp [hp]) hs (deletes_of_ne (by simp [hp]))
      (by rw [hafter]) fun _ => by simp [hafter, underway, hp]
  | update r t hp ht hhit =>
    exact h.update hg hresult ha hp ht (by rw [hafter]) hhit (by rw [hafter]) (by rw [hafter])
  | fill r t hp ho hmiss ht hfree hlow =>
    exact h.fill hg hresult ha hp ht (by rw [hafter]) ho hfree (by rw [hafter]) (by rw [hafter])
  | evict r t hp ho hmiss ht hfull hc =>
    refine h.evict hg hresult ha hp ht (by rw [hafter]) ho hmiss hfull (by rw [hafter]) ?_
    simp [hafter, underway, Staging.takeEvicted, ho]
  | miss r hp ho hmiss =>
    have hs : SameSlots b.start b.after := hafter ▸ sameSlots_of_lanes_map rfl rfl
    exact h.goesOn_of_sameSlots hg hresult (by simp [hp]) hs (deletes_of_misses ha hp hmiss)
      (by rw [hafter]) fun hne => absurd (by rw [hafter]) hne

end Spanned

end Step

section Run

variable {c : Config} {lanes : List Lane} {e e' : Engine} {beats : List Beat} {ds : List Drive}

theorem Spanned.behind (h : Spanned beats e) (gates : Nat → Gate) :
    Spanned beats (e.behind gates) :=
  { h with }

theorem runsTo_spanned (h : e.Accounted []) (hzero : e.rounds = 0) (hidle : e.phase = .idle)
    (hv : ∀ d ∈ ds, ∀ t, (d.gates t).visible = true) :
    e.RunsTo ds fun beats e' => (∃ keys, e'.Accounted keys) ∧ Spanned beats e' := by
  apply RunsTo.of_cycles hzero
  · exact ⟨⟨[], h⟩, ⟨hzero, rfl, rfl, rfl, fun hne => absurd hidle hne⟩⟩
  · rintro pre d post hds beats e' - ⟨⟨keys, hk⟩, hs⟩
    have hmoves := (hk.behind d.gates).cyclesTo_moves d.lines
      (hk.endsBlind_behind (hv d (by simp [hds])))
    apply hmoves.of_ok
    intro o ho
    obtain ⟨hm, -⟩ := hmoves.ok ho
    have hafter : (e'.beat d o).after = o.state := after_beat ho
    refine ⟨?_, hafter ▸ ?_⟩
    · obtain ⟨keys', hk', -⟩ := hm.accounted (hk.behind d.gates)
      exact ⟨keys', hk'⟩
    · rw [← hafter] at hm
      exact (hs.behind d.gates).step (genuine_beat ho) hm (hk.behind d.gates)

theorem countP_filterMap_any {α β : Type} (f : α → Option β) (p : β → Bool) (xs : List α) :
    (xs.filterMap f).countP p = xs.countP fun a => (f a).any p := by
  rw [List.countP_filterMap]
  refine List.countP_congr fun a _ => ?_
  cases f a <;> rfl

theorem length_asked_eq : (Beat.asked beats).length =
    beats.countP fun b => b.accepted?.any (·.operation == .lookup) := by
  rw [Beat.asked, List.length_filterMap_eq_countP]
  refine List.countP_congr fun b _ => ?_
  rw [Beat.asked?]
  cases b.accepted? with
  | none => rfl
  | some r => cases r <;> simp [Request.lookup?, Request.operation]

theorem length_told_eq : (Beat.told beats).length = (Beat.responses beats).length +
    beats.countP fun b => !b.result.isOk && b.start.phase.isIdle := by
  induction beats with
  | nil => rfl
  | cons b beats ih =>
    rw [Beat.told, Beat.responses, List.filterMap_cons, List.filterMap_cons, List.countP_cons,
      Beat.told?, Beat.response?]
    rw [Beat.told, Beat.responses] at ih
    cases hr : b.result with
    | ok out =>
      cases hout : out.response <;> simp [hout, ih, Except.isOk, Except.toBool]
      omega
    | error d =>
      by_cases hp : b.start.phase = .idle <;> simp [hp, ih, Except.isOk, Except.toBool, Phase.isIdle]
      omega

structure Ledger (beats : List Beat) (e : Engine) : Prop where
  ticks_eq : e.recorder.totals.ticks.toNat = beats.length
  faults_eq : e.recorder.totals.faults.toNat = beats.countP (!·.result.isOk)
  /-- The lookups accepted are answered, or failed in an idle cycle, or in flight. -/
  lookups_eq : e.recorder.totals.lookups.toNat = e.recorder.totals.answers.toNat +
    beats.countP (fun b => !b.result.isOk && b.start.phase.isIdle) + e.inFlight.count
  answers_eq : e.recorder.totals.answers.toNat = (Beat.responses beats).length
  lookupHits_eq : e.recorder.totals.lookupHits.toNat = (Beat.responses beats).countP (·.found)
  inserts_eq : e.recorder.totals.inserts.toNat =
    (Beat.accepted beats).countP (·.operation == .insert)
  deletes_eq : e.recorder.totals.deletes.toNat =
    (Beat.accepted beats).countP (·.operation == .delete)
  cleans_eq : e.recorder.totals.cleans.toNat =
    (Beat.accepted beats).countP (·.operation == .clean)
  deleteHits_eq : e.recorder.totals.deleteHits.toNat = Span.deleteHits (Span.ofBeats beats)
  evictions_eq : e.recorder.totals.evictions.toNat = Beat.evictions beats
  longestChain_eq : e.recorder.totals.longestChain.toNat = Span.longestChain (Span.ofBeats beats)
  rounds_eq : e.rounds = Span.current (Span.ofBeats beats)
  stalls_eq : e.recorder.totals.stalls.toNat = beats.countP Beat.stalls

/-- Whatever the slots hold, the statistics of a run balance in every state. -/
theorem statistics_balance (h : ofLanes c lanes = .ok e)
    (hready : ∀ l ∈ lanes, l.bank.hasher.IsTotal ∧ 0 < l.bank.depth ∧ l.bank.results = [])
    (hv : ∀ d ∈ ds, ∀ t, (d.gates t).visible = true) (hlt : ds.length < UInt64.size) :
    ∃ beats e', e.run ds = .ok (beats, e') ∧ Ledger beats e' := by
  have hstart := accounted_start h hready
  obtain ⟨-, -, -, rfl⟩ := ofLanes_eq_ok h
  obtain ⟨beats, e', hrun, -, hs⟩ := (runsTo_spanned hstart rfl rfl hv).exists_of_lt hlt
  obtain ⟨keys, hsettles⟩ := (runsTo_settles hstart rfl rfl hv).ok hrun
  have htotal := toNat_total rfl hrun hlt
  have hasked := hsettles.length_asked
  rw [length_asked_eq, length_told_eq] at hasked
  have hanswers : e'.recorder.totals.answers.toNat = (Beat.responses beats).length :=
    (htotal .answers).trans List.length_filterMap_eq_countP.symm
  refine ⟨beats, e', hrun, ?_⟩
  exact
    { ticks_eq := (htotal .ticks).trans (congrFun List.countP_true beats)
      faults_eq := htotal .faults
      lookups_eq := by
        rw [hanswers, ← hasked]
        exact htotal (.accepted .lookup)
      answers_eq := hanswers
      lookupHits_eq := (htotal .lookupHits).trans (countP_filterMap_any _ _ _).symm
      inserts_eq := (htotal (.accepted .insert)).trans (countP_filterMap_any _ _ _).symm
      deletes_eq := (htotal (.accepted .delete)).trans (countP_filterMap_any _ _ _).symm
      cleans_eq := (htotal (.accepted .clean)).trans (countP_filterMap_any _ _ _).symm
      deleteHits_eq := (htotal .deleteHits).trans hs.deleteHits_eq
      evictions_eq := (htotal .evictions).trans hs.evictions_eq
      longestChain_eq := (toNat_longestChain rfl rfl hrun hlt).trans hs.longestChain_eq
      rounds_eq := hs.rounds_eq
      stalls_eq := htotal .stalls }

/-- A lookup fails, the insert that waited for it evicts an entry which the next round updates, and a
delete finds its key. -/
theorem statistics_balance_clash :
    ∃ beats e', (start smallConfig clashingLanes).run
        ([{ lookup := some 5 }, { insert := some (7, 70) }, { insert := some (7, 70) },
          { insert := some (7, 70) }, {}, {}, {}, {}, {}, {}, { delete := some 7 }, {}, {}, {}].map
            .ofLines) = .ok (beats, e') ∧
      Beat.evictions beats = 1 ∧ Span.longestChain (Span.ofBeats beats) = 1 ∧
      Span.deleteHits (Span.ofBeats beats) = 1 ∧ Span.current (Span.ofBeats beats) = 0 ∧
      beats.countP Beat.stalls = 1 ∧ beats.countP (!·.result.isOk) = 1 := by
  obtain ⟨beats, e', hrun, hledger⟩ := statistics_balance ofLanes_clashingLanes ready_clashingLanes
    (visible_ofLines [{ lookup := some 5 }, { insert := some (7, 70) },
      { insert := some (7, 70) }, { insert := some (7, 70) }, {}, {}, {}, {}, {}, {},
      { delete := some 7 }, {}, {}, {}]) (by decide)
  obtain ⟨beats₁, e₁, hrun₁, htotals, hrounds⟩ : ∃ beats₁ e₁,
      (start smallConfig clashingLanes).run ([{ lookup := some 5 }, { insert := some (7, 70) },
        { insert := some (7, 70) }, { insert := some (7, 70) }, {}, {}, {}, {}, {}, {},
        { delete := some 7 }, {}, {}, {}].map .ofLines) = .ok (beats₁, e₁) ∧
      (e₁.recorder.totals.evictions = 1 ∧ e₁.recorder.totals.longestChain = 1 ∧
        e₁.recorder.totals.deleteHits = 1 ∧ e₁.recorder.totals.stalls = 1 ∧
        e₁.recorder.totals.faults = 1) ∧ e₁.rounds = 0 :=
    ⟨_, _, rfl, ⟨rfl, rfl, rfl, rfl, rfl⟩, rfl⟩
  cases hrun.symm.trans hrun₁
  obtain ⟨hevictions, hchain, hhits, hstalls, hfaults⟩ := htotals
  refine ⟨beats, e', hrun, ?_, ?_, ?_, ?_, ?_, ?_⟩
  · rw [← hledger.evictions_eq, hevictions]
    rfl
  · rw [← hledger.longestChain_eq, hchain]
    rfl
  · rw [← hledger.deleteHits_eq, hhits]
    rfl
  · rw [← hledger.rounds_eq, hrounds]
  · rw [← hledger.stalls_eq, hstalls]
    rfl
  · rw [← hledger.faults_eq, hfaults]
    rfl

end Run

end Engine
end ClockedCuckoo
