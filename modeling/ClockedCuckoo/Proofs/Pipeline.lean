import ClockedCuckoo.Proofs.Move

/-! Every move keeps the account, and so do the gates in front of the banks. -/

namespace ClockedCuckoo

theorem InFlight.count_after {n : InFlight} {accepted answered : Bool}
    (h : answered = true → 0 < n.count) :
    (n.after accepted answered).count + answered.toNat = n.count + accepted.toNat := by
  cases accepted with
  | true => cases answered <;> rfl
  | false =>
    cases answered with
    | false => rfl
    | true => exact Nat.sub_add_cancel (h rfl)

def Request.lookup? (keyMask : Word) : Request → Option Key
  | .lookup key => some (key &&& keyMask)
  | _ => none

def Staging.lookup? (s : Staging) : Option Key :=
  if s.holdsLookup then some s.key else none

theorem Staging.length_lookup? (s : Staging) :
    s.lookup?.toList.length = s.holdsLookup.toNat := by
  rw [lookup?]
  cases s.holdsLookup <;> rfl

theorem Request.length_lookup? (keyMask : Word) (accepted : Option Request) :
    (accepted.bind (lookup? keyMask)).toList.length = (accepted.any isLookup).toNat := by
  cases accepted with
  | none => rfl
  | some r => cases r <;> rfl

theorem Staging.lookup?_take (keyMask dataMask : Word) {s : Staging}
    {accepted : Option Request} {taken : Bool} (ht : taken = true → s.holdsLookup = true)
    (hx : accepted.any Request.isExclusive = false)
    (hfree : accepted ≠ none → s.holdsLookup = false ∨ taken = true) :
    (if taken then [s.key] else []) ++ (s.take accepted taken keyMask dataMask).lookup?.toList =
      s.lookup?.toList ++ (accepted.bind (Request.lookup? keyMask)).toList := by
  cases accepted with
  | none =>
    cases taken with
    | false => exact (List.append_nil _).symm
    | true =>
      rw [lookup?, lookup?, ht rfl]
      rfl
  | some r =>
    cases r with
    | lookup key =>
      rcases hfree (Option.some_ne_none _) with hs | rfl
      · cases taken with
        | false =>
          rw [lookup?, lookup?, hs]
          rfl
        | true => exact absurd (ht rfl) (by rw [hs]; decide)
      · rw [lookup?, lookup?, ht rfl]
        rfl
    | clean | delete key | insert key data => cases hx

namespace Engine

def nextKeys (e : Engine) (keys : List Key) (lines : Lines) : List Key :=
  (if e.delivers lines then keys.tail else keys) ++ if e.lookupTaken then [e.staging.key] else []

variable {e e' : Engine} {keys : List Key} {lines : Lines} {c : Command}

namespace Built

theorem answers_map (h : e.Built keys) (hw : c.write = none) :
    ∀ l ∈ e.lanes.map (·.cycle c), l.bank.Answers e.config.rows
      ((if c.consume then keys.tail else keys) ++ c.probe.toList) := by
  intro l' hl'
  obtain ⟨l, hl, rfl⟩ := List.mem_map.1 hl'
  exact (h.answers l hl).cycle hw

theorem answers_sweep (h : e.Built []) (w : SlotWrite) :
    ∀ l ∈ e.lanes.map (·.cycle { write := some w }), l.bank.Answers e.config.rows [] := by
  intro l' hl'
  obtain ⟨l, hl, rfl⟩ := List.mem_map.1 hl'
  rw [Lane.bank_cycle]
  apply (h.answers l hl).cycle_nil
  · rfl
  · rfl

theorem answers_overwritten {key : Key} (h : e.Built [key]) (t : Nat) :
    ∀ l ∈ e.overwritten t, l.bank.Answers e.config.rows [] := by
  intro l' hl'
  obtain ⟨i, hi⟩ := List.getElem?_of_mem hl'
  rw [overwritten, List.getElem?_mapIdx, Option.map_eq_some_iff] at hi
  obtain ⟨l, hl, rfl⟩ := hi
  rw [Lane.bank_cycle]
  apply (h.answers l (List.mem_of_getElem? hl)).cycle_nil
  · rfl
  · rfl

theorem length_map (h : e.Built keys) (f : Lane → Lane) :
    (e.lanes.map f).length = e.config.banks :=
  (List.length_map f).trans h.lanes_length

theorem length_overwritten (h : e.Built keys) (t : Nat) :
    (e.overwritten t).length = e.config.banks :=
  List.length_mapIdx.trans h.lanes_length

theorem keys_ne_nil_of_delivers (h : e.Built keys) (hd : e.delivers lines = true) :
    keys ≠ [] := by
  rintro rfl
  simp [delivers, response?, h.results?_of_nil] at hd

theorem length_nextKeys (h : e.Built keys) (lines : Lines) :
    (e.nextKeys keys lines).length + (e.delivers lines).toNat =
      keys.length + e.lookupTaken.toNat := by
  have hd : e.delivers lines = true → keys ≠ [] := h.keys_ne_nil_of_delivers
  rw [nextKeys, List.length_append]
  cases hdel : e.delivers lines with
  | false => cases e.lookupTaken <;> simp
  | true =>
    have hpos := List.length_pos_iff.2 (hd hdel)
    have hlen : keys.tail.length + 1 = keys.length := by
      rw [List.length_tail]
      exact Nat.sub_add_cancel hpos
    cases e.lookupTaken <;> simp <;> omega

end Built

theorem holdsLookup_of_lookupTaken (h : e.lookupTaken = true) : e.staging.holdsLookup = true := by
  rw [lookupTaken, Bool.and_eq_true] at h
  exact h.2

namespace Accounted

theorem keys_nil_of_lookupsDone (h : e.Accounted keys) (hp : e.phase = .idle)
    (hd : e.lookupsDone = true) :
    keys = [] ∧ e.inFlight.count = 0 ∧ e.staging.holdsLookup = false := by
  rw [lookupsDone, Bool.and_eq_true, Bool.not_eq_true', InFlight.isZero_eq_true] at hd
  have hidle := h.idle hp
  rw [hd.1, hd.2] at hidle
  exact ⟨List.length_eq_zero_iff.1 (by simpa using hidle), hd⟩

theorem count_pos_of_delivers (h : e.Accounted keys) (hd : e.delivers lines = true) :
    0 < e.inFlight.count := by
  have hpos := List.length_pos_iff.2 (h.keys_ne_nil_of_delivers hd)
  have hidle := h.idle (idle_of_delivers hd)
  omega

theorem count_after_refuse (h : e.Accounted keys) (hp : e.phase = .idle) (hne : keys ≠ []) :
    (e.inFlight.after false true).count + 1 = e.inFlight.count := by
  have hidle := h.idle hp
  have hpos := List.length_pos_iff.2 hne
  exact InFlight.count_after fun _ => by omega

theorem count_nextInFlight (h : e.Accounted keys) (lines : Lines) :
    (e.nextInFlight lines).count + (e.delivers lines).toNat =
      e.inFlight.count + (e.lookupAccepted lines).toNat :=
  InFlight.count_after h.count_pos_of_delivers

theorem count_nextInFlight_le (h : e.Accounted keys) (lines : Lines) :
    (e.nextInFlight lines).count ≤ e.config.maxOverlap - 1 := by
  have hcount := h.count_nextInFlight lines
  have hle := h.count_le
  cases hl : e.lookupAccepted lines with
  | false =>
    rw [hl] at hcount
    simp at hcount
    omega
  | true =>
    rw [hl] at hcount
    have hroom := hasRoom_of_lookupAccepted hl
    rw [InFlight.hasRoom, decide_eq_true_eq, h.overlap] at hroom
    simp at hcount
    omega

theorem keys_ne_nil_of_fault (h : e.Accounted keys) {d : Duplicate} (hf : e.fault? = some d) :
    keys ≠ [] := by
  rintro rfl
  simp [fault?, h.results?_of_nil] at hf

theorem holdsLookup_of_busy (h : e.Accounted keys) (hp : e.phase ≠ .idle) :
    e.staging.holdsLookup = false := by
  rw [Staging.holdsLookup, beq_eq_false_iff_ne]
  exact (h.busy hp).2

theorem nextKeys_of_lookupsDone (h : e.Accounted keys) (hp : e.phase = .idle)
    (hd : e.lookupsDone = true) (lines : Lines) :
    e.nextKeys keys lines = [] ∧ (e.nextInFlight lines).count ≤ (e.lookupAccepted lines).toNat := by
  obtain ⟨rfl, hzero, hstaged⟩ := h.keys_nil_of_lookupsDone hp hd
  have hcount := h.count_nextInFlight lines
  have htaken : e.lookupTaken = false := by rw [lookupTaken, hstaged, Bool.and_false]
  constructor
  · simp [nextKeys, htaken]
  · omega

end Accounted

theorem lookup?_take (hx : e.exclusiveAccepted lines = false) (keyMask dataMask : Word) :
    (if e.lookupTaken then [e.staging.key] else []) ++
        (e.staging.take (e.accepted? lines) e.lookupTaken keyMask dataMask).lookup?.toList =
      e.staging.lookup?.toList ++ ((e.accepted? lines).bind (Request.lookup? keyMask)).toList := by
  apply Staging.lookup?_take keyMask dataMask holdsLookup_of_lookupTaken hx
  intro hne
  obtain ⟨r, hr⟩ := Option.ne_none_iff_exists'.1 hne
  obtain ⟨-, ⟨hrx, -⟩ | ⟨-, -, hfree⟩⟩ := accepted?_cases hr
  · rw [exclusiveAccepted, hr, Option.any_some, hrx] at hx
    cases hx
  · exact hfree

/-- An idle cycle keeps the count of lookups: those it accepts come in through the staging register,
and those it answers leave the queues. -/
theorem Accounted.count_served (h : e.Accounted keys) (hp : e.phase = .idle)
    (hx : e.exclusiveAccepted lines = false) (keyMask dataMask : Word) :
    (e.nextKeys keys lines).length +
        (e.staging.take (e.accepted? lines) e.lookupTaken keyMask dataMask).holdsLookup.toNat =
      (e.nextInFlight lines).count := by
  have hidle := h.idle hp
  have hlen := h.length_nextKeys lines
  have hcount := h.count_nextInFlight lines
  have hstaged := congrArg List.length (lookup?_take hx keyMask dataMask)
  rw [List.length_append, List.length_append, Staging.length_lookup?, Staging.length_lookup?,
    Request.length_lookup?] at hstaged
  rw [lookupAccepted] at hcount
  have htaken : (if e.lookupTaken then [e.staging.key] else []).length = e.lookupTaken.toNat := by
    cases e.lookupTaken <;> rfl
  omega

theorem Accounted.serve (h : e.Accounted keys) (hp : e.phase = .idle) (r : Recorder) :
    (e.served lines r).Accounted (e.nextKeys keys lines) := by
  have hrow : e.sweep.row = 0 := h.row_eq (by simp [hp])
  have hkeys : (if e.delivers lines then keys.tail else keys) ++
      (if e.lookupTaken then some e.staging.key else none).toList = e.nextKeys keys lines := by
    rw [nextKeys]
    cases e.lookupTaken <;> rfl
  have hbuilt : (e.served lines r).Built (e.nextKeys keys lines) :=
    { h with
      lanes_length := h.length_map _
      answers := hkeys ▸ h.answers_map rfl
      overlap := (InFlight.maxOverlap_after _ _ _).trans h.overlap
      count_le := h.count_nextInFlight_le lines }
  cases hx : e.exclusiveAccepted lines with
  | false =>
    exact hbuilt.accounted_idle (started_of_no_exclusive hx) hrow (h.count_served hp hx _ _)
  | true =>
    -- No lookup is left, so the phase that starts finds the queues and the counter empty.
    obtain ⟨req, hacc, hreq, hdone, -⟩ := accepted?_of_exclusiveAccepted hx
    obtain ⟨hnil, hle⟩ := h.nextKeys_of_lookupsDone hp hdone lines
    obtain ⟨-, -, hs⟩ := h.keys_nil_of_lookupsDone hp hdone
    have ho : e.staging.origin ≠ .lookup := by simpa [Staging.holdsLookup] using hs
    have hphase : (e.served lines r).phase = Phase.started (some req) := by rw [served, hacc]
    have hstaging : (e.served lines r).staging =
        e.staging.take (some req) e.lookupTaken e.config.keyMask e.config.dataMask := by
      rw [served, hacc]
    have hzero : (e.served lines r).inFlight.count = 0 := by
      refine Nat.le_zero.1 (Nat.le_trans hle ?_)
      rw [lookupAccepted, hacc]
      cases req with
      | lookup key => cases hreq
      | clean | delete key | insert key data => exact Nat.le_refl _
    rw [hnil] at hbuilt ⊢
    cases req with
    | clean => exact hbuilt.accounted_cleaning hphase hzero (by rw [hstaging]; exact ho)
    | delete key | insert key data =>
      refine hbuilt.accounted_probing hphase hrow hzero ?_ ?_
      · rw [hstaging]
        simp [Staging.take]
      · rw [hstaging]
        rfl
    | lookup key => cases hreq

theorem Accounted.refuse (h : e.Accounted keys) (hp : e.phase = .idle) (hne : keys ≠ [])
    (r : Recorder) :
    ({ e with
      lanes := e.lanes.map (·.cycle { consume := true })
      inFlight := e.inFlight.after false true
      recorder := r } : Engine).Accounted keys.tail := by
  have hidle := h.idle hp
  have hpos := List.length_pos_iff.2 hne
  have hcount := h.count_after_refuse hp hne
  have hanswers := h.answers_map (c := { consume := true }) rfl
  simp only [if_true, Option.toList_none, List.append_nil] at hanswers
  refine Built.accounted_idle ?_ hp (h.row_eq (by simp [hp])) ?_
  · exact { h with
      lanes_length := h.length_map _
      answers := hanswers
      overlap := (InFlight.maxOverlap_after _ _ _).trans h.overlap
      count_le := by
        have hle := h.count_le
        dsimp only
        omega }
  · rw [List.length_tail]
    dsimp only
    omega

theorem Accounted.sweep (h : e.Accounted keys) (hp : e.phase = .cleaning) (r : Recorder) :
    ({ e with
      lanes := e.lanes.map (·.cycle { write := some (.clear e.sweep.row) })
      phase := if e.sweep.atLast then .idle else .cleaning
      sweep := e.sweep.step true
      recorder := r } : Engine).Accounted [] := by
  obtain rfl := h.quiet (.inl hp)
  obtain ⟨hcount, ho⟩ := h.busy (by simp [hp])
  have hbuilt : ({ e with
      lanes := e.lanes.map (·.cycle { write := some (.clear e.sweep.row) })
      phase := if e.sweep.atLast then .idle else .cleaning
      sweep := e.sweep.step true
      recorder := r } : Engine).Built [] :=
    { h with
      lanes_length := h.length_map _
      answers := h.answers_sweep _
      last_eq := h.last_eq
      row_le := Sweep.row_step_le h.row_le true }
  by_cases hl : e.sweep.atLast = true
  · refine hbuilt.accounted_idle (if_pos hl) (by simp [Sweep.step, hl]) ?_
    have hs := h.holdsLookup_of_busy (by simp [hp])
    dsimp only
    rw [hs, hcount]
    rfl
  · exact hbuilt.accounted_cleaning (if_neg hl) hcount ho

theorem Accounted.built_of_ended (h : e.Accounted keys)
    (hp : e.phase = .waiting ∨ e.phase = .writing) {lanes : List Lane} {phase : Phase}
    {staging : Staging} {rounds : Nat} {recorder : Recorder}
    (hl : lanes = e.lanes.map (·.cycle { consume := true }) ∨ ∃ t, lanes = e.overwritten t) :
    ({ e with
      lanes := lanes
      phase := phase
      staging := staging
      rounds := rounds
      recorder := recorder } : Engine).Built [] := by
  obtain rfl := h.updating hp
  rcases hl with rfl | ⟨t, rfl⟩
  · exact { h with
      lanes_length := h.length_map _
      answers := h.answers_map (c := { consume := true }) rfl }
  · exact { h with
      lanes_length := h.length_overwritten t
      answers := h.answers_overwritten t }

theorem Accounted.ended (h : e.Accounted keys)
    (hp : e.phase = .waiting ∨ e.phase = .writing) {lanes : List Lane} {staging : Staging}
    (hl : lanes = e.lanes.map (·.cycle { consume := true }) ∨ ∃ t, lanes = e.overwritten t)
    (hs : staging.holdsLookup = false) (recorder : Recorder) :
    ({ e with
      lanes := lanes
      phase := .idle
      staging := staging
      recorder := recorder } : Engine).Accounted [] := by
  have hne : e.phase ≠ .idle := by
    rcases hp with hp | hp <;> simp [hp]
  have hnc : e.phase ≠ .cleaning := by
    rcases hp with hp | hp <;> simp [hp]
  have hbuilt : ({ e with
      lanes := lanes
      phase := .idle
      staging := staging
      recorder := recorder } : Engine).Built [] := h.built_of_ended hp hl
  apply hbuilt.accounted_idle rfl (h.row_eq hnc)
  dsimp only
  rw [hs, (h.busy hne).1]
  rfl

theorem Move.accounted {result : Except Duplicate Outputs} (hm : Move e lines e' result)
    (h : e.Accounted keys) : ∃ keys', e'.Accounted keys' ∧
      (e.phase = .idle → keys' = if e.fault?.isSome then keys.tail else e.nextKeys keys lines) := by
  cases hm with
  | serve r hp hf => exact ⟨_, h.serve hp r, fun _ => by simp [hf]⟩
  | refuse r d hp hf =>
    exact ⟨_, h.refuse hp (h.keys_ne_nil_of_fault hf) r, fun _ => by simp [hf]⟩
  | hold r hp => exact ⟨keys, { h with }, fun hi => absurd hi hp⟩
  | sweep r hp ht =>
    exact ⟨[], h.sweep hp r, fun hi => absurd hi (by simp [hp])⟩
  | probe r hp ht =>
    obtain rfl := h.quiet (.inr hp)
    obtain ⟨hcount, ho⟩ := h.busy (by simp [hp])
    have hbuilt : ({ e with
        lanes := e.lanes.map (·.cycle { probe := some e.staging.key })
        phase := .waiting
        recorder := r } : Engine).Built [e.staging.key] :=
      { h with
        lanes_length := h.length_map _
        answers := h.answers_map (c := { probe := some e.staging.key }) rfl }
    refine ⟨_, hbuilt.accounted_waiting rfl (h.row_eq (by simp [hp])) hcount ho
      (h.staged (by simp [hp]) (by simp [hp])), fun hi => absurd hi (by simp [hp])⟩
  | choose r hp hs =>
    obtain rfl := h.updating (.inl hp)
    obtain ⟨i, hi, htarget⟩ :=
      h.names.next hs (h.length_reads _) h.valid.banks_pos h.banks_le
    -- The results stay queued until the round ends; only the choice is taken in.
    refine ⟨[e.staging.key], ?_, fun hi => absurd hi (by simp [hp])⟩
    exact { h with
      names := .inr ⟨i, hi, htarget⟩
      row_eq := fun _ => h.row_eq (by simp [hp])
      idle := by simp
      busy := fun _ => h.busy (by simp [hp])
      quiet := by simp
      updating := fun _ => rfl
      staged := fun _ _ => h.staged (by simp [hp]) (by simp [hp])
      chosen := fun _ => ⟨hs, e.choice, h.names, rfl⟩ }
  | abort r d hp hf =>
    exact ⟨[], h.ended (.inl hp) (.inl rfl) rfl r, fun hi => absurd hi (by simp [hp])⟩
  | update r t hp ht hhit =>
    have hs := h.holdsLookup_of_busy (by simp [hp])
    exact ⟨[], h.ended (.inr hp) (.inr ⟨t, rfl⟩) hs r, fun hi => absurd hi (by simp [hp])⟩
  | fill r t hp ho hmiss ht hfree hlow =>
    have hs := h.holdsLookup_of_busy (by simp [hp])
    exact ⟨[], h.ended (.inr hp) (.inr ⟨t, rfl⟩) hs r, fun hi => absurd hi (by simp [hp])⟩
  | evict r t hp ho hmiss ht hfull hc =>
    obtain ⟨hcount, horigin⟩ := h.busy (by simp [hp])
    refine ⟨[], ?_, fun hi => absurd hi (by simp [hp])⟩
    refine Built.accounted_probing (h.built_of_ended (.inr hp) (.inr ⟨t, rfl⟩)) rfl
      (h.row_eq (by simp [hp])) hcount horigin ?_
    simp [Staging.takeEvicted, ho]
  | miss r hp ho hmiss =>
    have hs := h.holdsLookup_of_busy (by simp [hp])
    exact ⟨[], h.ended (.inr hp) (.inl rfl) hs r, fun hi => absurd hi (by simp [hp])⟩

section Gates

variable (gates : Nat → Gate)

theorem getElem?_lanes_behind (t : Nat) : (e.behind gates).lanes[t]? =
    e.lanes[t]?.map fun l => { l with gate := gates t } :=
  List.getElem?_mapIdx

theorem sameSlots_behind : SameSlots e (e.behind gates) := by
  constructor
  · intro t i
    rw [slotAt, slotAt, getElem?_lanes_behind]
    cases e.lanes[t]? <;> rfl
  · intro t key
    rw [home, home, getElem?_lanes_behind]
    cases e.lanes[t]? <;> rfl

theorem reads_behind (key : Key) : (e.behind gates).reads key = e.reads key := by
  apply List.ext_getElem?
  intro t
  rw [reads, reads, List.getElem?_map, List.getElem?_map, getElem?_lanes_behind, Option.map_map]
  rfl

theorem Built.behind (h : e.Built keys) : (e.behind gates).Built keys :=
  { h with
    lanes_length := List.length_mapIdx.trans h.lanes_length
    answers := by
      intro l' hl'
      obtain ⟨t, ht⟩ := List.getElem?_of_mem hl'
      rw [getElem?_lanes_behind, Option.map_eq_some_iff] at ht
      obtain ⟨l, hl, rfl⟩ := ht
      exact h.answers l (List.mem_of_getElem? hl) }

theorem Built.forall_gate_behind (h : e.Built keys) (p : Gate → Prop) :
    (∀ l ∈ (e.behind gates).lanes, p l.gate) ↔ ∀ t < e.config.banks, p (gates t) := by
  rw [← h.lanes_length]
  constructor
  · intro hall t ht
    exact hall _ (List.mem_mapIdx.2 ⟨t, ht, rfl⟩)
  · intro hall l hl
    obtain ⟨t, ht, rfl⟩ := List.mem_mapIdx.1 hl
    exact hall t ht

theorem Accounted.behind (h : e.Accounted keys) : (e.behind gates).Accounted keys :=
  { h.toBuilt.behind gates with
    row_eq := h.row_eq
    idle := h.idle
    busy := h.busy
    quiet := h.quiet
    updating := h.updating
    staged := h.staged
    chosen := fun hp => by
      obtain ⟨hs, last, hlast, hc⟩ := h.chosen hp
      refine ⟨?_, last, hlast, ?_⟩
      · rw [reads_behind]
        exact hs
      · rw [reads_behind]
        exact hc }

end Gates

end Engine
end ClockedCuckoo
