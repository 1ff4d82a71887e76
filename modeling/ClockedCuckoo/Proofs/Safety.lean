import ClockedCuckoo.Proofs.Pipeline

/-! No cycle of an accounted engine breaks a rule, so only the count of evictions can stop a run, and
every state of a run is accounted for. -/

namespace ClockedCuckoo

namespace Engine

variable {c : Config} {lanes : List Lane} {e : Engine} {keys : List Key} {lines : Lines}

theorem getElem?_commands {i : Nat} {c : Command} (hc : (e.commands lines)[i]? = some c) :
    c.probe = (if e.probeTaken then some e.staging.key else none) ∧
      ∃ w, e.writes[i]? = some w ∧ (c.write = none ∨ c.write = w) := by
  rw [commands, List.getElem?_map, Option.map_eq_some_iff] at hc
  obtain ⟨w, hw, rfl⟩ := hc
  refine ⟨rfl, w, hw, ?_⟩
  cases e.writeTaken with
  | true => exact .inr rfl
  | false => exact .inl rfl

namespace Built

theorem index_lt_of_writes (h : e.Built keys) {i : Nat} {l : Lane} {w : SlotWrite}
    (hl : e.lanes[i]? = some l) (hw : e.writes[i]? = some (some w)) : w.index < l.bank.size := by
  have hanswers := h.answers l (List.mem_of_getElem? hl)
  have hrows := h.rows_pos
  rw [writes] at hw
  split at hw
  · rw [List.getElem?_map, hl] at hw
    cases hw
    rw [hanswers.size_eq]
    exact h.row_lt
  · rename_i ps _ hr
    obtain ⟨key, rest, -, rfl⟩ := h.results?_eq_some hr
    split at hw
    · rw [List.getElem?_mapIdx, reads, List.getElem?_map, hl] at hw
      simp only [Option.map_some, Option.some.injEq] at hw
      split at hw
      · cases hw
        rw [hanswers.size_eq]
        exact Bank.home_lt hanswers hrows key
      · cases hw
    · rw [List.getElem?_map, hl] at hw
      cases hw
  · rw [List.getElem?_map, hl] at hw
    cases hw

theorem cycleEvents_eq_nil (h : e.Built keys) {i : Nat} {l : Lane} {c : Command}
    (hl : e.lanes[i]? = some l) (hc : (e.commands lines)[i]? = some c) :
    l.bank.cycleEvents c = [] := by
  obtain ⟨-, w, hw, hcw⟩ := getElem?_commands hc
  rw [Bank.cycleEvents]
  split
  · rename_i w' hw'
    rcases hcw with hnone | hsame
    · rw [hnone] at hw'
      cases hw'
    · rw [← hsame, hw'] at hw
      rw [if_pos (h.index_lt_of_writes hl hw)]
  · rfl

theorem cycleViolation?_eq_none (h : e.Built keys) {i : Nat} {l : Lane} {c : Command}
    (hl : e.lanes[i]? = some l) (hc : (e.commands lines)[i]? = some c) :
    l.bank.cycleViolation? c = none := by
  have hmem := List.mem_of_getElem? hl
  have hanswers := h.answers l hmem
  have hrows := h.rows_pos
  have hhome : ∀ key, l.bank.homeViolation? key = none := by
    intro key
    have hsize : (l.bank.size == 0) = false := by
      rw [hanswers.size_eq]
      exact beq_false_of_ne (Nat.pos_iff_ne_zero.1 hrows)
    rw [Bank.homeViolation?, hanswers.isTotal key, Hash.slotIndexViolation?, hsize]
    rfl
  obtain ⟨hprobe, -⟩ := getElem?_commands hc
  rw [Bank.cycleViolation?, hprobe]
  cases ht : e.probeTaken with
  | false => rfl
  | true =>
    rw [probeTaken, Handshake.fork_eq_true] at ht
    have htakes := ht.2 _ (List.mem_map_of_mem hmem)
    rw [Lane.takesProbe, Bool.and_eq_true, Bank.hasRoom, decide_eq_true_eq] at htakes
    have hroom : (if c.consume then l.bank.consume else l.bank).hasRoom = true := by
      rw [Bank.hasRoom, decide_eq_true_eq]
      split
      · show l.bank.results.tail.length < l.bank.depth
        rw [List.length_tail]
        omega
      · exact htakes.2
    have hsame : (if c.consume then l.bank.consume else l.bank).homeViolation? e.staging.key =
        l.bank.homeViolation? e.staging.key := by
      split <;> rfl
    simp only [if_true, hroom, hsame, hhome]
    rfl

end Built

namespace Accounted

theorem afterViolation?_eq_none (h : e.Accounted keys) :
    e.inFlight.afterViolation? (e.lookupAccepted lines) (e.delivers lines) = none := by
  cases hl : e.lookupAccepted lines with
  | true =>
    cases hd : e.delivers lines with
    | true => rfl
    | false =>
      rw [InFlight.afterViolation?, hasRoom_of_lookupAccepted hl]
      rfl
  | false =>
    cases hd : e.delivers lines with
    | false => rfl
    | true =>
      have hpos := h.count_pos_of_delivers hd
      have hz : e.inFlight.isZero = false := beq_false_of_ne (Nat.pos_iff_ne_zero.1 hpos)
      rw [InFlight.afterViolation?, hz]
      rfl

theorem phaseViolation?_eq_none (h : e.Accounted keys) :
    e.phase.violation? (e.signals lines) = none := by
  rw [Phase.violation?, Violation.when_eq_none]
  by_cases hp : e.phase = .writing
  · have ho := (h.busy (by simp [hp])).2
    simp [signals, ho]
  · simp [hp]

theorem decisionViolation?_eq_none (h : e.Accounted keys) (hf : e.fault? = none) :
    e.decision?.bind Choice.keepViolation? = none := by
  by_cases hp : e.phase = .waiting
  · cases hr : e.results? with
    | none => simp [decision?, hr]
    | some ps =>
      have hr' := h.results?_of_updating (.inl hp) hr
      have hs := h.singleHit_of_no_fault (by simp [usesResults, hp]) hf hr'
      obtain ⟨i, hi, htarget⟩ :=
        h.names.next hs (h.length_reads _) h.valid.banks_pos h.banks_le
      have hnames : (e.choice.next (e.reads e.staging.key)).Names e.config.banks :=
        .inr ⟨i, hi, htarget⟩
      rw [decision?, hp, hr']
      exact hnames.keepViolation? h.banks_le
  · rw [decision?_of_ne hp]
    rfl

theorem resultsViolation?_eq_none (h : e.Accounted keys) : e.resultsViolation? = none := by
  rw [resultsViolation?]
  cases hr : e.results? with
  | none => rfl
  | some ps =>
    obtain ⟨key, rest, -, rfl⟩ := h.results?_eq_some hr
    have hlen := h.length_reads key
    rw [Option.bind_some]
    cases hp : e.phase with
    | idle => exact Response.ofProbesViolation?_eq_none hlen h.valid.banks_pos h.banks_le
    | waiting => exact h.names.chooseViolation? h.valid.banks_pos h.banks_le hlen
    | writing =>
      have hall : (List.range (e.reads key).length).findSome? e.choice.target.containsViolation? =
          none := List.findSome?_eq_none_iff.2 fun i _ => h.names.containsViolation? h.banks_le i
      simp only [hall, ite_self]
    | cleaning | probing => rfl

theorem advanceViolation?_eq (h : e.Accounted keys) (hf : e.fault? = none) :
    e.advanceViolation? lines =
      Violation.overflow.when (e.evicted?.isSome && UInt64.size ≤ e.rounds + 1) := by
  have hbanks : List.findSome? id
      (List.zipWith (fun l c => l.bank.cycleViolation? c) e.lanes (e.commands lines)) = none := by
    rw [List.findSome?_eq_none_iff]
    intro v hv
    obtain ⟨i, hi⟩ := List.getElem?_of_mem hv
    obtain ⟨l, c, hl, hc, rfl⟩ := List.getElem?_zipWith_eq_some.1 hi
    exact h.cycleViolation?_eq_none hl hc
  have hevict : (e.evicted?.bind fun _ => e.staging.takeEvictedViolation?) = none := by
    cases hev : e.evicted? with
    | none => rfl
    | some entry =>
      have ho : e.staging.origin = .insert := by
        rw [evicted?] at hev
        split at hev
        · rename_i hcond
          simp only [Bool.and_eq_true, beq_iff_eq] at hcond
          exact hcond.1.2
        · cases hev
      rw [Option.bind_some, Staging.takeEvictedViolation?, ho]
      rfl
  rw [advanceViolation?, hbanks, hevict, h.decisionViolation?_eq_none hf,
    h.afterViolation?_eq_none, h.phaseViolation?_eq_none, h.resultsViolation?_eq_none]
  cases Violation.overflow.when _ <;> rfl

theorem discardViolation?_eq_none (h : e.Accounted keys) {d : Duplicate}
    (hf : e.fault? = some d) : e.discardViolation? = none := by
  rw [discardViolation?, h.resultsViolation?_eq_none, Option.none_or]
  split
  · rename_i hi
    have hp : e.phase = .idle := Phase.isIdle_eq_true.1 hi
    have hpos := List.length_pos_iff.2 (h.keys_ne_nil_of_fault hf)
    have hidle := h.idle hp
    have hz : e.inFlight.isZero = false := beq_false_of_ne (by omega)
    rw [InFlight.afterViolation?, hz]
    rfl
  · rfl

/-- A cycle drops results or moves on; that it is stopped takes a count of evictions at its end. -/
theorem cyclesTo (h : e.Accounted keys) {p : Outcome Engine Duplicate Outputs → Prop}
    (hfail : ∀ d, e.fault? = some d → p ⟨e.discard, .error d, [.discarded d e.phase]⟩)
    (hgo : e.fault? = none → p ⟨e.advance lines, .ok (e.outputs lines), e.events lines⟩) :
    e.CyclesTo lines p := by
  unfold CyclesTo cycle
  cases hf : e.fault? with
  | some d =>
    simp only [h.discardViolation?_eq_none hf]
    exact hfail d hf
  | none =>
    rw [h.advanceViolation?_eq hf]
    cases hcond : e.evicted?.isSome && decide (UInt64.size ≤ e.rounds + 1) with
    | false => exact hgo hf
    | true =>
      -- Stopped at an eviction, with the count at its bound.
      rw [Bool.and_eq_true, decide_eq_true_eq] at hcond
      exact ⟨rfl, hcond.2⟩

theorem events_in_range (h : e.Accounted keys) (i n : Nat) :
    .writeOutOfRange i n ∉ e.events lines := by
  intro hmem
  have hbanks : (List.zipWith (fun l c => l.bank.cycleEvents c) e.lanes
      (e.commands lines)).flatten = [] := by
    rw [List.flatten_eq_nil_iff]
    intro evs hevs
    obtain ⟨j, hj⟩ := List.getElem?_of_mem hevs
    obtain ⟨l, c, hl, hc, rfl⟩ := List.getElem?_zipWith_eq_some.1 hj
    exact h.cycleEvents_eq_nil hl hc
  rw [events, hbanks] at hmem
  simp only [List.nil_append, List.mem_append] at hmem
  rcases hmem with ((hmem | hmem) | hmem) | hmem
  · split at hmem <;> simp at hmem
  · split at hmem
    · split at hmem <;> simp at hmem
    · simp at hmem
  · split at hmem
    · split at hmem <;> simp at hmem
    · simp at hmem
  · split at hmem <;> simp at hmem

theorem cyclesTo_moves (h : e.Accounted keys) (lines : Lines) (hb : e.endsBlind = false) :
    e.CyclesTo lines fun o => Move e lines o.state o.result ∧
      ∀ i n, .writeOutOfRange i n ∉ o.events := by
  apply h.cyclesTo
  · intro d hf
    exact ⟨move_discard hf, fun i n => by simp⟩
  · intro hf
    exact ⟨h.move_advance hf hb, h.events_in_range⟩

theorem endsBlind_of_visible (h : e.Accounted keys)
    (hv : ∀ l ∈ e.lanes, l.gate.visible = true) : e.endsBlind = false := by
  by_cases hp : e.phase = .writing
  · obtain rfl := h.updating (.inr hp)
    rw [endsBlind, h.results?_of_visible hv]
    exact Bool.and_false _
  · rw [endsBlind, roundDone_of_ne hp]
    rfl

theorem endsBlind_behind (h : e.Accounted keys) {gates : Nat → Gate}
    (hv : ∀ t, (gates t).visible = true) : (e.behind gates).endsBlind = false := by
  apply (h.behind gates).endsBlind_of_visible
  exact (h.forall_gate_behind gates (·.visible = true)).2 fun t _ => hv t

end Accounted

theorem Move.config_eq {e' : Engine} {result : Except Duplicate Outputs}
    (hm : Move e lines e' result) : e'.config = e.config := by
  cases hm <;> rfl

theorem Move.inFlight_eq {e' : Engine} {result : Except Duplicate Outputs}
    (hm : Move e lines e' result) (hp : e.phase ≠ .idle) : e'.inFlight = e.inFlight := by
  cases hm with
  | serve r hi hf | refuse r d hi hf => exact absurd hi hp
  | _ => rfl

theorem Move.sweep_eq {e' : Engine} {result : Except Duplicate Outputs}
    (hm : Move e lines e' result) (hp : e.phase ≠ .cleaning) : e'.sweep = e.sweep := by
  cases hm with
  | sweep r hc ht => exact absurd hc hp
  | _ => rfl

theorem ofLanes_eq_ok (h : ofLanes c lanes = .ok e) :
    c.Valid ∧ lanes.length = c.banks ∧ (∀ l ∈ lanes, l.bank.size = c.rows) ∧ e = start c lanes := by
  rw [ofLanes] at h
  split at h
  · cases h
  · rename_i hval
    split at h
    · cases h
    · rename_i hlen
      split at h
      · cases h
      · rename_i hfind
        cases h
        refine ⟨?_, of_not_not hlen, fun l hl => ?_, rfl⟩
        · rw [← Config.defect?_eq_none_iff]
          rw [Config.validate] at hval
          split at hval
          · cases hval
          · assumption
        · have hsize := List.find?_eq_none.1 hfind l hl
          simpa using hsize

theorem accounted_start (h : ofLanes c lanes = .ok e)
    (hready : ∀ l ∈ lanes, l.bank.hasher.IsTotal ∧ 0 < l.bank.depth ∧ l.bank.results = []) :
    e.Accounted [] := by
  obtain ⟨hvalid, hlen, hsize, rfl⟩ := ofLanes_eq_ok h
  have hbuilt : (start c lanes).Built [] :=
    { valid := hvalid
      lanes_length := hlen
      answers := fun l hl => by
        obtain ⟨htotal, hdepth, hnil⟩ := hready l hl
        exact ⟨hsize l hl, htotal, hdepth, hnil⟩
      overlap := rfl
      count_le := Nat.zero_le _
      last_eq := rfl
      row_le := Nat.zero_le _
      names := Choice.names_initial _ }
  exact hbuilt.accounted_idle rfl rfl rfl

theorem Accounted.runsTo (h : e.Accounted []) (hzero : e.rounds = 0) {ds : List Drive}
    (hv : ∀ d ∈ ds, ∀ t, (d.gates t).visible = true) :
    e.RunsTo ds fun beats e' => e'.config = e.config ∧ (∃ keys, e'.Accounted keys) ∧
      ∀ b ∈ beats, ∀ i n, .writeOutOfRange i n ∉ b.events := by
  apply RunsTo.of_cycles hzero
  · exact ⟨rfl, ⟨[], h⟩, by simp⟩
  · rintro pre d post hds beats e' - ⟨hc, ⟨keys, hk⟩, hev⟩
    have hd : d ∈ ds := by simp [hds]
    have hb := hk.endsBlind_behind (hv d hd)
    apply ((hk.behind _).cyclesTo_moves d.lines hb).mono
    rintro o ⟨hm, hevents⟩
    obtain ⟨keys', hk', -⟩ := hm.accounted (hk.behind _)
    refine ⟨hm.config_eq.trans hc, ⟨keys', hk'⟩, fun b hmem => ?_⟩
    rcases List.mem_append.1 hmem with hmem | hmem
    · exact hev b hmem
    · rw [List.mem_singleton.1 hmem]
      exact hevents

/-- No round of a run ends while some bank does not show its result. -/
def Sighted (e : Engine) (ds : List Drive) : Prop :=
  ∀ pre d post, ds = pre ++ d :: post → ∀ beats e', e.run pre = .ok (beats, e') →
    ∀ o, e'.tick d = .ok o → (e'.behind d.gates).endsBlind = false

theorem Accounted.sighted (h : e.Accounted []) (hzero : e.rounds = 0) {ds : List Drive}
    (hv : ∀ d ∈ ds, ∀ t, (d.gates t).visible = true) : e.Sighted ds := by
  intro pre d post hds beats e' hrun o _
  have hpre : ∀ c ∈ pre, ∀ t, (c.gates t).visible = true := fun c hc => hv c (by simp [hds, hc])
  obtain ⟨-, ⟨keys, hk⟩, -⟩ := (h.runsTo hzero hpre).ok hrun
  exact hk.endsBlind_behind (hv d (by simp [hds]))

theorem Sighted.runsTo {ds : List Drive} {p : List Beat → Engine → Prop} (hs : e.Sighted ds)
    (hzero : e.rounds = 0) (hnil : p [] e)
    (hacc : ∀ beats e', p beats e' → ∃ keys, e'.Accounted keys)
    (hstep : ∀ beats e' d o, p beats e' → Move (e'.behind d.gates) d.lines o.state o.result →
      p (beats ++ [e'.beat d o]) o.state) :
    e.RunsTo ds p := by
  apply RunsTo.of_cycles hzero hnil
  intro pre d post hds beats e' hrun hp
  obtain ⟨keys, hk⟩ := hacc beats e' hp
  have hbehind := hk.behind d.gates
  have hgo : (e'.behind d.gates).CyclesTo d.lines fun _ => True :=
    hbehind.cyclesTo (fun _ _ => trivial) fun _ => trivial
  apply hgo.of_ok
  intro o ho
  have hm := hbehind.cyclesTo_moves d.lines (hs pre d post hds beats e' hrun o ho)
  exact hstep beats e' d o hp (hm.ok ho).1

/-- Whatever the slots hold, no run breaks a rule or writes out of range, and in every state that it
reaches the queues agree with each other and with the registers. -/
theorem queues_match_registers (h : ofLanes c lanes = .ok e)
    (hready : ∀ l ∈ lanes, l.bank.hasher.IsTotal ∧ 0 < l.bank.depth ∧ l.bank.results = [])
    (ls : List Lines) (hlt : ls.length < UInt64.size) :
    ∃ beats e', e.run (ls.map .ofLines) = .ok (beats, e') ∧
      (∀ b ∈ beats, ∀ i n, .writeOutOfRange i n ∉ b.events) ∧
      (∃ keys : List Key, (∀ l ∈ e'.lanes, l.bank.results.map (·.key) = keys) ∧
        (e'.phase = .idle →
          keys.length + e'.staging.holdsLookup.toNat = e'.inFlight.count) ∧
        (e'.phase = .cleaning ∨ e'.phase = .probing → keys = []) ∧
        (e'.phase = .waiting ∨ e'.phase = .writing → keys = [e'.staging.key])) ∧
      e'.inFlight.count ≤ c.maxOverlap - 1 ∧
      (e'.phase ≠ .idle → e'.inFlight.count = 0) ∧
      (e'.phase ≠ .idle → e'.phase ≠ .cleaning →
        e'.staging.origin = .insert ∨ e'.staging.origin = .delete) ∧
      (e'.phase ≠ .cleaning → e'.sweep.row = 0) := by
  have hstart := accounted_start h hready
  obtain ⟨-, -, -, rfl⟩ := ofLanes_eq_ok h
  have hruns := hstart.runsTo rfl (visible_ofLines ls)
  obtain ⟨beats, e', hrun, hc, ⟨keys, hk⟩, hev⟩ :=
    hruns.exists_of_lt (by rwa [List.length_map])
  have hle := hk.count_le
  rw [hc] at hle
  refine ⟨beats, e', hrun, hev, ⟨keys, fun l hl => ?_, hk.idle, hk.quiet, hk.updating⟩,
    hle, fun hp => (hk.busy hp).1, fun hp _ => ?_, hk.row_eq⟩
  · rw [(hk.answers l hl).results_eq, List.map_map]
    exact List.map_id _
  · have ho := (hk.busy hp).2
    cases horigin : e'.staging.origin with
    | insert => exact .inl rfl
    | delete => exact .inr rfl
    | lookup => exact absurd horigin ho

def smallConfig : Config where
  capacity := 4
  banks := 2
  keyWidth := 8
  dataWidth := 8
  maxOverlap := 4

/-- Both banks hold the key 5 where it belongs, and one holds it elsewhere too. -/
def clashingLanes : List Lane :=
  [{ bank := ⟨#[{}, ⟨5, 1, true⟩], .ofFunction id, 1, []⟩ },
    { bank := ⟨#[⟨5, 2, true⟩, ⟨5, 3, true⟩], .ofFunction id, 1, []⟩ }]

theorem ofLanes_clashingLanes :
    ofLanes smallConfig clashingLanes = .ok (start smallConfig clashingLanes) := rfl

theorem ready_clashingLanes : ∀ l ∈ clashingLanes,
    l.bank.hasher.IsTotal ∧ 0 < l.bank.depth ∧ l.bank.results = [] := by
  simp [clashingLanes, Hash.Hasher.isTotal_ofFunction]

theorem gate_clashingLanes : ∀ l ∈ clashingLanes, l.gate = {} := by
  simp [clashingLanes]

/-- The lookup of 5 fails in the third cycle, and the delete that follows it waits for the results of
its probe. -/
theorem queues_match_registers_clash :
    ∃ beats e', (start smallConfig clashingLanes).run
        ([{ lookup := some 5 }, {}, {}, { delete := some 5 }, {}].map .ofLines) =
        .ok (beats, e') ∧
      beats.findIdx? (!·.result.isOk) = some 2 ∧
      beats[2]?.map (·.result) = some (.error ⟨5, [0, 1]⟩) ∧
      (∀ b ∈ beats, ∀ i n, .writeOutOfRange i n ∉ b.events) ∧
      e'.phase = .waiting ∧ e'.lanes.length = 2 ∧
      (∀ l ∈ e'.lanes, l.bank.results.map (·.key) = [5]) ∧
      e'.inFlight.count = 0 ∧ e'.staging.origin = .delete ∧ e'.sweep.row = 0 := by
  obtain ⟨beats, e', hrun, hevents, ⟨keys, hqueues, -, -, hupdating⟩, -, hcount, -, hrow⟩ :=
    queues_match_registers ofLanes_clashingLanes ready_clashingLanes
      [{ lookup := some 5 }, {}, {}, { delete := some 5 }, {}] (by decide)
  obtain ⟨beats₁, e₁, hrun₁, hfirst, hfault, hphase, hlanes, horigin, hkey⟩ : ∃ beats₁ e₁,
      (start smallConfig clashingLanes).run
        ([{ lookup := some 5 }, {}, {}, { delete := some 5 }, {}].map .ofLines) =
        .ok (beats₁, e₁) ∧ beats₁.findIdx? (!·.result.isOk) = some 2 ∧
      beats₁[2]?.map (·.result) = some (.error ⟨5, [0, 1]⟩) ∧ e₁.phase = .waiting ∧
      e₁.lanes.length = 2 ∧ e₁.staging.origin = .delete ∧ e₁.staging.key = 5 :=
    ⟨_, _, rfl, rfl, rfl, rfl, rfl, rfl, rfl⟩
  cases hrun.symm.trans hrun₁
  have hkeys : keys = [5] := hkey ▸ hupdating (.inl hphase)
  rw [hphase] at hcount hrow
  exact ⟨beats, e', hrun, hfirst, hfault, hevents, hphase, hlanes, hkeys ▸ hqueues,
    hcount nofun, horigin, hrow nofun⟩

end Engine
end ClockedCuckoo
