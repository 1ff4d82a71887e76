import ClockedCuckoo.Proofs.Safety

/-! The totals of a recorder as counts of cycles. A run adds up what its cycles measure, and every
total but the longest chain is the number of cycles in which its measurement was taken. -/

namespace ClockedCuckoo

inductive Total
  | ticks
  | faults
  | accepted (operation : Operation)
  | answers
  | lookupHits
  | deleteHits
  | evictions
  | stalls

def Counters.total (c : Counters) : Total → Word
  | .ticks => c.ticks
  | .faults => c.faults
  | .accepted .lookup => c.lookups
  | .accepted .insert => c.inserts
  | .accepted .delete => c.deletes
  | .accepted .clean => c.cleans
  | .answers => c.answers
  | .lookupHits => c.lookupHits
  | .deleteHits => c.deleteHits
  | .evictions => c.evictions
  | .stalls => c.stalls

def Measurement.raises : Measurement → Total → Bool
  | accepted op, .accepted op' => op == op'
  | answered _, .answers => true
  | answered found, .lookupHits => found
  | deleted hit, .deleteHits => hit
  | evicted _, .evictions => true
  | tick, .ticks => true
  | stalled, .stalls => true
  | faulted, .faults => true
  | _, _ => false

theorem Counters.total_record (c : Counters) (m : Measurement) (k : Total) :
    (c.record m).total k = c.total k + if m.raises k then 1 else 0 := by
  cases k with
  | accepted op =>
    cases m with
    | accepted op' => cases op' <;> cases op <;> simp [record, total, Measurement.raises]
    | answered | deleted | evicted | tick | stalled | faulted =>
      cases op <;> simp [record, total, Measurement.raises]
  | ticks | faults | answers | lookupHits | deleteHits | evictions | stalls =>
    cases m with
    | accepted op => cases op <;> simp [record, total, Measurement.raises]
    | answered hit | deleted hit => cases hit <;> simp [record, total, Measurement.raises]
    | evicted | tick | stalled | faulted => simp [record, total, Measurement.raises]

theorem Counters.total_zero (k : Total) : Counters.total {} k = 0 := by
  cases k with
  | accepted op => cases op <;> rfl
  | _ => rfl

theorem Counters.total_foldl (c : Counters) (ms : List Measurement) (k : Total) :
    (ms.foldl record c).total k = c.total k + UInt64.ofNat (ms.countP (·.raises k)) := by
  induction ms generalizing c with
  | nil => simp
  | cons m ms ih =>
    rw [List.foldl_cons, ih, total_record, List.countP_cons, UInt64.add_assoc]
    cases m.raises k with
    | false => simp
    | true => rw [UInt64.ofNat_add, UInt64.add_comm (UInt64.ofNat _)]; rfl

def Measurement.chain? : Measurement → Option Word
  | evicted chain => some chain
  | _ => none

theorem Counters.longestChain_foldl (c : Counters) (ms : List Measurement) :
    (ms.foldl record c).longestChain = (ms.filterMap Measurement.chain?).foldl max c.longestChain := by
  induction ms generalizing c with
  | nil => rfl
  | cons m ms ih =>
    rw [List.foldl_cons, ih]
    cases m with
    | accepted op => cases op <;> rfl
    | answered | deleted | evicted | tick | stalled | faulted => rfl

theorem Recorder.recordAll_counting (c : Counters) (ms : List Measurement) :
    (counting c).recordAll ms = counting (ms.foldl Counters.record c) := by
  induction ms generalizing c with
  | nil => rfl
  | cons m ms ih => exact ih (c.record m)

theorem countP_one {α : Type} (p : α → Bool) (a : α) : [a].countP p = (p a).toNat := by
  cases hp : p a <;> simp [hp]

theorem countP_if {α : Type} (p : α → Bool) (c : Bool) (a : α) :
    (if c then [a] else []).countP p = (c && p a).toNat := by
  cases c with
  | false => rfl
  | true => exact countP_one p a

/-- A request is accepted, or waits, or there is none: never two of them. -/
theorem countP_admission (p : Measurement → Bool) {accepted? : Option Request} {stalls : Bool} :
    (accepted?.isSome = true → stalls = false) → List.countP p (match accepted? with
      | some r => [.accepted r.operation]
      | none => if stalls then [.stalled] else []) =
    (accepted?.any fun r => p (.accepted r.operation)).toNat + (stalls && p .stalled).toNat := by
  intro h
  cases accepted? with
  | none => rw [Option.any_none, Bool.toNat_false, Nat.zero_add, countP_if]
  | some q =>
    rw [countP_one, h rfl]
    rfl

theorem countP_answer (p : Measurement → Bool) (response? : Option Response) (delivers : Bool) :
    List.countP p (match response? with
      | some r => if delivers then [.answered r.found] else []
      | none => []) =
    ((if delivers then response? else none).any fun r => p (.answered r.found)).toNat := by
  cases response? with
  | none => rw [ite_self]; rfl
  | some r =>
    rw [countP_if]
    cases delivers <;> rfl

theorem filterMap_chain?_admission (accepted? : Option Request) (stalls : Bool) :
    List.filterMap Measurement.chain? (match accepted? with
      | some r => [.accepted r.operation]
      | none => if stalls then [.stalled] else []) = [] := by
  cases accepted? with
  | none => cases stalls <;> rfl
  | some q => rfl

theorem filterMap_chain?_answer (response? : Option Response) (delivers : Bool) :
    List.filterMap Measurement.chain? (match response? with
      | some r => if delivers then [.answered r.found] else []
      | none => []) = [] := by
  cases response? with
  | none => rfl
  | some r => cases delivers <;> rfl

namespace Beat

def Genuine (b : Beat) : Prop :=
  ∃ o, b.start.cycle b.lines = .ok o ∧ b.result = o.result

def after (b : Beat) : Engine :=
  match b.start.cycle b.lines with
  | .ok o => o.state
  | .error _ => b.start

def measured (b : Beat) : List Measurement :=
  match b.result with
  | .ok _ => b.start.measurements b.lines
  | .error _ => [.faulted, .tick]

def stalls (b : Beat) : Bool :=
  b.result.isOk && b.start.phase.isIdle && b.lines.hasExclusive && b.accepted?.isNone

variable {b : Beat} {beats : List Beat}

theorem Genuine.cases (h : b.Genuine) : (∃ d, b.result = .error d) ∨
    b.result = .ok (b.start.outputs b.lines) ∧ b.after = b.start.advance b.lines := by
  obtain ⟨o, ho, hr⟩ := h
  rcases Engine.cycle_eq_ok ho with ⟨d, -, rfl⟩ | ⟨-, rfl⟩
  · exact .inl ⟨d, hr⟩
  · exact .inr ⟨hr, by rw [after, ho]⟩

section Counts

variable (h : b.Genuine)

include h

theorem Genuine.countP_measured (p : Measurement → Bool) : b.measured.countP p =
    (!b.result.isOk && p .faulted).toNat +
    (b.result.isOk && b.start.evicted?.isSome &&
      p (.evicted (UInt64.ofNat (b.start.rounds + 1)))).toNat +
    (b.result.isOk && (b.start.roundDone && b.start.staging.origin == .delete) &&
      p (.deleted b.start.choice.found)).toNat +
    (b.accepted?.any fun r => p (.accepted r.operation)).toNat + (b.stalls && p .stalled).toNat +
    (b.response?.any fun r => p (.answered r.found)).toNat + (p .tick).toNat := by
  rcases h.cases with ⟨d, hr⟩ | ⟨hr, -⟩
  · have hboth : [Measurement.faulted, .tick].countP p = (p .faulted).toNat + (p .tick).toNat := by
      rw [← countP_one p .faulted, ← countP_one p .tick, ← List.countP_append]
      rfl
    simp only [measured, accepted?, response?, stalls, hr, hboth, Except.isOk, Except.toBool,
      Option.any_none, Bool.not_false, Bool.true_and, Bool.false_and, Bool.toNat_false, Nat.add_zero]
  · have hacc : b.accepted? = b.start.accepted? b.lines := by
      rw [accepted?, hr]
      rfl
    have hresp : b.response? = if b.start.delivers b.lines then b.start.response? else none := by
      rw [response?, hr]
      rfl
    have hstall : b.stalls = b.start.stalls b.lines := by
      rw [stalls, hr, hacc]
      rfl
    have hwaits : (b.start.accepted? b.lines).isSome = true → b.start.stalls b.lines = false := by
      intro hsome
      rw [Engine.stalls, Option.isNone_eq_false_iff.2 hsome, Bool.and_false]
    simp only [measured, hr, Engine.measurements, List.countP_append, countP_if, countP_one, hacc,
      hresp, hstall, Except.isOk, Except.toBool, Bool.not_true, Bool.true_and, Bool.false_and,
      Bool.toNat_false, Nat.zero_add]
    refine congrArg (· + _) ((congrArg₂ (· + ·)
      (congrArg (_ + ·) (countP_admission p hwaits)) (countP_answer p _ _)).trans ?_)
    rw [← Nat.add_assoc]

end Counts

def evicts (b : Beat) : Bool :=
  b.result.isOk && b.start.evicted?.isSome

def deletes (b : Beat) : Bool :=
  b.result.isOk && (b.start.roundDone && b.start.staging.origin == .delete) &&
    b.start.choice.found

def chain (b : Beat) : Nat :=
  if b.evicts then b.start.rounds + 1 else 0

def raises (b : Beat) : Total → Bool
  | .ticks => true
  | .faults => !b.result.isOk
  | .accepted op => b.accepted?.any (·.operation == op)
  | .answers => b.response?.isSome
  | .lookupHits => b.response?.any (·.found)
  | .deleteHits => b.deletes
  | .evictions => b.evicts
  | .stalls => b.stalls

theorem Genuine.countP_raises (h : b.Genuine) (k : Total) :
    b.measured.countP (·.raises k) = (b.raises k).toNat := by
  rw [h.countP_measured]
  cases k <;> simp [raises, Measurement.raises, evicts, deletes]

theorem Genuine.filterMap_chain? (h : b.Genuine) : b.measured.filterMap Measurement.chain? =
    if b.evicts then [UInt64.ofNat (b.start.rounds + 1)] else [] := by
  rcases h.cases with ⟨d, hr⟩ | ⟨hr, -⟩
  · rw [measured, evicts, hr]
    rfl
  · have hdeleted : List.filterMap Measurement.chain?
        (if b.start.roundDone && b.start.staging.origin == .delete then
          [.deleted b.start.choice.found] else []) = [] := by
      split <;> rfl
    have hevicted : List.filterMap Measurement.chain? (if b.start.evicted?.isSome then
        [.evicted (UInt64.ofNat (b.start.rounds + 1))] else []) =
        if b.evicts then [UInt64.ofNat (b.start.rounds + 1)] else [] := by
      rw [evicts, hr]
      cases b.start.evicted? <;> rfl
    simp only [measured, hr, Engine.measurements, List.filterMap_append, hevicted, hdeleted]
    refine (congrArg₂ (fun xs ys => _ ++ [] ++ xs ++ ys ++ [])
      (filterMap_chain?_admission _ _) (filterMap_chain?_answer _ _)).trans ?_
    simp only [List.append_nil]

theorem Genuine.longestChain_foldl (h : b.Genuine) (hlt : b.start.rounds + 1 < UInt64.size)
    (c : Counters) : (b.measured.foldl Counters.record c).longestChain.toNat =
      max c.longestChain.toNat b.chain := by
  rw [Counters.longestChain_foldl, h.filterMap_chain?, chain]
  cases b.evicts with
  | false => exact (Nat.max_zero _).symm
  | true =>
    have hof : (UInt64.ofNat (b.start.rounds + 1)).toNat = b.start.rounds + 1 := by
      rw [UInt64.toNat_ofNat']
      exact Nat.mod_eq_of_lt hlt
    simp only [if_true, List.foldl_cons, List.foldl_nil, UInt64.toNat_max, hof]

theorem longestChain_flatMap (h : ∀ b ∈ beats, b.Genuine ∧ b.start.rounds + 1 < UInt64.size)
    (c : Counters) : ((beats.flatMap measured).foldl Counters.record c).longestChain.toNat =
      (beats.map chain).foldl max c.longestChain.toNat := by
  induction beats generalizing c with
  | nil => rfl
  | cons b beats ih =>
    obtain ⟨hb, hlt⟩ := h b List.mem_cons_self
    rw [List.flatMap_cons, List.foldl_append, ih (fun b' hb => h b' (List.mem_cons_of_mem b hb)),
      hb.longestChain_foldl hlt, List.map_cons, List.foldl_cons]

theorem countP_flatMap_measured (h : ∀ b ∈ beats, b.Genuine) (k : Total) :
    (beats.flatMap measured).countP (·.raises k) = beats.countP (·.raises k) := by
  induction beats with
  | nil => rfl
  | cons b beats ih =>
    rw [List.flatMap_cons, List.countP_append, (h b List.mem_cons_self).countP_raises,
      ih fun b' hb => h b' (List.mem_cons_of_mem b hb), List.countP_cons, Nat.add_comm]
    cases b.raises k <;> rfl

end Beat

namespace Engine

variable {e e' : Engine} {d : Drive} {ds : List Drive} {beats : List Beat} {lines : Lines}
  {o : Outcome Engine Duplicate Outputs}

theorem genuine_beat (ht : e.tick d = .ok o) : (e.beat d o).Genuine :=
  ⟨o, ht, rfl⟩

theorem after_beat (ht : e.tick d = .ok o) : (e.beat d o).after = o.state := by
  have hcycle : (e.beat d o).start.cycle (e.beat d o).lines = .ok o := ht
  rw [Beat.after, hcycle]

theorem recorder_beat (ht : e.tick d = .ok o) :
    o.state.recorder = e.recorder.recordAll (e.beat d o).measured := by
  rcases cycle_eq_ok ht with ⟨f, -, rfl⟩ | ⟨-, rfl⟩
  · rfl
  · rfl

theorem recorder_of_run (h : e.run ds = .ok (beats, e')) :
    e'.recorder = e.recorder.recordAll (beats.flatMap Beat.measured) := by
  induction ds generalizing e beats with
  | nil =>
    cases h
    rfl
  | cons d ds ih =>
    obtain ⟨o, beats', ht, hrun, rfl⟩ := run_cons_eq_ok h
    rw [ih hrun, recorder_beat ht, List.flatMap_cons, Recorder.recordAll_append]

theorem genuine_of_run (h : e.run ds = .ok (beats, e')) : ∀ b ∈ beats, b.Genuine := by
  intro b hb
  obtain ⟨_, _, _, _, _, _, -, -, ht, rfl⟩ := exists_of_mem_run h hb
  exact genuine_beat ht

/-- Every total but the longest chain counts the cycles that raise it, in a word. -/
theorem total_of_run (hr : e.recorder = .counting {}) (hrun : e.run ds = .ok (beats, e'))
    (k : Total) : e'.recorder.totals.total k = UInt64.ofNat (beats.countP (·.raises k)) := by
  rw [recorder_of_run hrun, hr, Recorder.recordAll_counting, Recorder.totals, Counters.total_foldl,
    Beat.countP_flatMap_measured (genuine_of_run hrun), Counters.total_zero, UInt64.zero_add]

theorem toNat_total (hr : e.recorder = .counting {}) (hrun : e.run ds = .ok (beats, e'))
    (hlt : ds.length < UInt64.size) (k : Total) :
    (e'.recorder.totals.total k).toNat = beats.countP (·.raises k) := by
  have hle : beats.countP (·.raises k) ≤ ds.length := length_of_run hrun ▸ List.countP_le_length
  rw [total_of_run hr hrun, UInt64.toNat_ofNat']
  exact Nat.mod_eq_of_lt (Nat.lt_of_le_of_lt hle hlt)

theorem rounds_lt_of_mem (hrun : e.run ds = .ok (beats, e')) {b : Beat} (hb : b ∈ beats) :
    b.start.rounds < e.rounds + ds.length := by
  obtain ⟨pre, d, post, _, e₀, o, rfl, hpre, -, rfl⟩ := exists_of_mem_run hrun hb
  have hrounds := rounds_le_of_run hpre
  rw [List.length_append, List.length_cons]
  show e₀.rounds < _
  omega

theorem toNat_longestChain (hr : e.recorder = .counting {}) (hzero : e.rounds = 0)
    (hrun : e.run ds = .ok (beats, e')) (hlt : ds.length < UInt64.size) :
    e'.recorder.totals.longestChain.toNat = (beats.map Beat.chain).foldl max 0 := by
  rw [recorder_of_run hrun, hr, Recorder.recordAll_counting, Recorder.totals,
    Beat.longestChain_flatMap]
  · rfl
  · intro b hb
    have hle := rounds_lt_of_mem hrun hb
    exact ⟨genuine_of_run hrun b hb, by omega⟩

end Engine
end ClockedCuckoo
