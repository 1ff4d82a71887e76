import ClockedCuckoo.Proofs.Outcomes
import ClockedCuckoo.Proofs.Progress

/-! Admission and writes keep apart from lookups. An exclusive request is accepted only when no lookup
is left, and slots change only in the phases that it starts. -/

namespace ClockedCuckoo

theorem Lines.hasExclusive_of_exclusive? {l : Lines} {r : Request} (h : l.exclusive? = some r) :
    l.hasExclusive = true := by
  obtain ⟨clean, delete, insert, lookup, ready⟩ := l
  cases clean <;> cases delete <;> cases insert <;> simp_all [hasExclusive, exclusive?]

section Started

variable {accepted : Option Request}

theorem Phase.started_eq_cleaning_iff : started accepted = .cleaning ↔ accepted = some .clean := by
  cases accepted with
  | none => simp [started]
  | some r => cases r <;> simp [started]

theorem Phase.started_eq_probing_iff : started accepted = .probing ↔
    (∃ key, accepted = some (.delete key)) ∨ ∃ key data, accepted = some (.insert key data) := by
  cases accepted with
  | none => simp [started]
  | some r => cases r <;> simp [started]

theorem Phase.started_cases (accepted : Option Request) :
    started accepted = .idle ∨ started accepted = .cleaning ∨ started accepted = .probing := by
  cases accepted with
  | none => exact .inl rfl
  | some r => cases r <;> simp [started]

end Started

namespace Engine

variable {c : Config} {lanes : List Lane} {e e' : Engine} {keys : List Key} {lines : Lines}

theorem Accounted.lookupsDone_iff (h : e.Accounted keys) (hp : e.phase = .idle) :
    e.lookupsDone = true ↔ e.inFlight.count = 0 := by
  constructor
  · exact fun hd => (h.keys_nil_of_lookupsDone hp hd).2.1
  · intro hcount
    have hidle := h.idle hp
    have hstaged : e.staging.holdsLookup.toNat = 0 := by omega
    rw [lookupsDone, InFlight.isZero_eq_true.2 hcount, Bool.toNat_eq_zero.1 hstaged]
    rfl

/-- The arbiter and the phases read the request lines each in its own way; they agree on what is
accepted. -/
theorem Accounted.exclusive_accepted_iff (h : e.Accounted keys) {r : Request} :
    e.accepted? lines = some r ∧ r.isExclusive = true ↔
      e.phase = .idle ∧ e.inFlight.count = 0 ∧ lines.exclusive? = some r := by
  constructor
  · rintro ⟨hacc, hx⟩
    obtain ⟨hp, -⟩ := accepted?_cases hacc
    have hdone := lookupsDone_of_exclusive hacc hx
    refine ⟨hp, (h.lookupsDone_iff hp).1 hdone, ?_⟩
    cases hl : lines.hasExclusive with
    | true => rwa [accepted?_of_exclusive hp hl, if_pos hdone] at hacc
    | false =>
      rw [accepted?_of_no_exclusive hp hl] at hacc
      split at hacc
      · obtain ⟨key, -, rfl⟩ := Option.map_eq_some_iff.1 hacc
        cases hx
      · cases hacc
  · rintro ⟨hp, hcount, hr⟩
    have hdone := (h.lookupsDone_iff hp).2 hcount
    rw [accepted?_of_exclusive hp (Lines.hasExclusive_of_exclusive? hr), if_pos hdone]
    exact ⟨hr, Lines.isExclusive_of_exclusive? hr⟩

theorem Move.accepted_eq {out : Outputs} (hm : Move e lines e' (.ok out)) :
    out.accepted = e.accepted? lines := by
  cases hm with
  | serve r hp hf => rfl
  | hold r hp => rw [accepted?_of_ne hp]
  | sweep r hp | probe r hp | choose r hp | update r t hp | fill r t hp | evict r t hp | miss r hp =>
    rw [accepted?_of_ne (by simp [hp])]

theorem Move.phase_eq_of_idle {out : Outputs} (hm : Move e lines e' (.ok out))
    (hp : e.phase = .idle) : e'.phase = Phase.started out.accepted := by
  cases hm with
  | serve r _ _ => rfl
  | _ => simp_all

theorem Move.sameSlots_or {result : Except Duplicate Outputs} (hm : Move e lines e' result) :
    SameSlots e e' ∨ e.phase = .cleaning ∨ e.phase = .writing := by
  cases hm with
  | serve r hp hf => exact .inl (sameSlots_served e lines r)
  | refuse r d hp hf | abort r d hp hf | probe r hp ht =>
    exact .inl (sameSlots_of_lanes_map rfl rfl)
  | hold r hp | choose r hp hs => exact .inl (sameSlots_of_lanes_eq rfl)
  | sweep r hp => exact .inr (.inl hp)
  | update r t hp | fill r t hp | evict r t hp | miss r hp => exact .inr (.inr hp)

theorem Settles.length_asked {beats : List Beat} (h : Settles beats e keys) :
    (Beat.asked beats).length = (Beat.told beats).length + e.inFlight.count := by
  obtain ⟨settled, pending, hasked, htold, hpending, -⟩ := h.split
  rw [hasked, List.length_append, htold.length_eq, ← h.accounted.length_awaited, ← hpending,
    List.length_map]

theorem Settles.sameSlots {beats : List Beat} (h : Settles beats e keys) :
    ∀ a ∈ (Beat.asked beats).drop (Beat.told beats).length, SameSlots a.1 e := by
  obtain ⟨settled, pending, hasked, htold, -, hsame⟩ := h.split
  rw [hasked, ← htold.length_eq, List.drop_left]
  exact fun a ha => (hsame a ha).1

theorem Settles.forall₂_of_count {beats : List Beat} (h : Settles beats e keys)
    (hcount : e.inFlight.count = 0) : List.Forall₂ Settled (Beat.asked beats) (Beat.told beats) := by
  obtain ⟨settled, pending, hasked, htold, hpending, -⟩ := h.split
  rw [h.accounted.awaited_of_count hcount, List.map_eq_nil_iff] at hpending
  rw [hasked, hpending, List.append_nil]
  exact htold

theorem runsTo_settles (h : e.Accounted []) (hzero : e.rounds = 0) (hcount : e.inFlight.count = 0)
    {ds : List Drive} (hv : ∀ d ∈ ds, ∀ t, (d.gates t).visible = true) :
    e.RunsTo ds fun beats e' => ∃ keys, Settles beats e' keys := by
  apply (h.sighted hzero hv).runsTo hzero
  · exact ⟨[], settles_start h hcount⟩
  · rintro beats e' ⟨keys, hs⟩
    exact ⟨keys, hs.accounted⟩
  · rintro beats e' d o ⟨keys, hs⟩ hm
    exact hs.beat d hm

/-- An exclusive request is accepted exactly when the engine is idle and every lookup has its outcome;
it alone moves the engine on. Slots change only while it is carried out, so that a lookup without an
outcome finds them as it found them when it was accepted. -/
theorem writes_exclude_lookups (h : ofLanes c lanes = .ok e)
    (hready : ∀ l ∈ lanes, l.bank.hasher.IsTotal ∧ 0 < l.bank.depth ∧ l.bank.results = [])
    (ls : List Lines) :
    e.RunsTo (ls.map .ofLines) fun beats e' =>
      (∀ lines o, e'.tick (.ofLines lines) = .ok o →
        (∀ out, o.result = .ok out →
          (∀ r, out.accepted = some r ∧ r.isExclusive = true ↔
            e'.phase = .idle ∧ e'.inFlight.count = 0 ∧ lines.exclusive? = some r) ∧
          (e'.phase = .idle →
            (o.state.phase = .cleaning ↔ out.accepted = some .clean) ∧
            (o.state.phase = .probing ↔ (∃ key, out.accepted = some (.delete key)) ∨
              ∃ key data, out.accepted = some (.insert key data)) ∧
            (o.state.phase = .idle ∨ o.state.phase = .cleaning ∨ o.state.phase = .probing))) ∧
        ((∃ t i, o.state.slotAt t i ≠ e'.slotAt t i) →
          (e'.phase = .cleaning ∨ e'.phase = .writing) ∧
            (Beat.asked beats).length = (Beat.told beats).length)) ∧
      ∀ a ∈ (Beat.asked beats).drop (Beat.told beats).length, SameSlots a.1 e' := by
  have hstart := accounted_start h hready
  obtain ⟨-, -, -, rfl⟩ := ofLanes_eq_ok h
  apply (runsTo_settles hstart rfl rfl (visible_ofLines ls)).mono
  rintro beats e' - ⟨keys, hs⟩
  refine ⟨fun lines o ho => ?_, hs.sameSlots⟩
  have hk := hs.accounted.behind (Drive.ofLines lines).gates
  have hb : (e'.behind (Drive.ofLines lines).gates).endsBlind = false :=
    hs.accounted.endsBlind_behind fun _ => rfl
  have hm := ((hk.cyclesTo_moves lines hb).ok ho).1
  constructor
  · intro out hout
    rw [hout] at hm
    refine ⟨fun r => ?_, fun hp => ?_⟩
    · rw [hm.accepted_eq]
      exact hk.exclusive_accepted_iff
    · rw [hm.phase_eq_of_idle hp]
      exact ⟨Phase.started_eq_cleaning_iff, Phase.started_eq_probing_iff, Phase.started_cases _⟩
  · rintro ⟨t, i, hne⟩
    have hphase : e'.phase = .cleaning ∨ e'.phase = .writing := by
      refine hm.sameSlots_or.resolve_left fun hsame => hne ?_
      rw [hsame.slotAt_eq, (sameSlots_behind _).slotAt_eq]
    refine ⟨hphase, ?_⟩
    have hbusy : e'.phase ≠ .idle := by
      rcases hphase with hp | hp <;> simp [hp]
    rw [hs.length_asked, (hs.accounted.busy hbusy).1]
    rfl

/-- The delete waits for the lookup of 4, which was staged behind one that is refused. With none behind
it, the delete is accepted and starts its first round. -/
theorem writes_exclude_lookups_clash :
    ∃ beats e' o out, (start smallConfig clashingLanes).run
        ([{ lookup := some 5 }, { lookup := some 4 }, { delete := some 5 }].map .ofLines) =
        .ok (beats, e') ∧
      e'.tick (.ofLines { delete := some 5, resultReady := false }) = .ok o ∧ o.result = .ok out ∧
      (∀ r, ¬(out.accepted = some r ∧ r.isExclusive = true)) ∧
      (Beat.asked beats).drop (Beat.told beats).length ≠ [] ∧
      (∀ a ∈ (Beat.asked beats).drop (Beat.told beats).length, SameSlots a.1 e') ∧
      ∃ beats₁ e₁ o₁ out₁, (start smallConfig clashingLanes).run
          ([{ lookup := some 5 }, {}, { delete := some 5 }].map .ofLines) = .ok (beats₁, e₁) ∧
        e₁.tick (.ofLines { delete := some 5 }) = .ok o₁ ∧ o₁.result = .ok out₁ ∧
        out₁.accepted = some (.delete 5) ∧ o₁.state.phase = .probing := by
  obtain ⟨beats, e', o, out, hrun, ho, hout, hcount, hpending⟩ : ∃ beats e' o out,
      (start smallConfig clashingLanes).run
        ([{ lookup := some 5 }, { lookup := some 4 }, { delete := some 5 }].map .ofLines) =
        .ok (beats, e') ∧
      e'.tick (.ofLines { delete := some 5, resultReady := false }) = .ok o ∧
      o.result = .ok out ∧ e'.inFlight.count = 1 ∧
      ((Beat.asked beats).drop (Beat.told beats).length).length = 1 :=
    ⟨_, _, _, _, rfl, rfl, rfl, rfl, rfl⟩
  obtain ⟨hticks, hsame⟩ := (writes_exclude_lookups ofLanes_clashingLanes ready_clashingLanes
    [{ lookup := some 5 }, { lookup := some 4 }, { delete := some 5 }]).ok hrun
  obtain ⟨beats₁, e₁, o₁, out₁, hrun₁, ho₁, hout₁, hidle₁, hcount₁, hasked₁⟩ :
      ∃ beats₁ e₁ o₁ out₁, (start smallConfig clashingLanes).run
          ([{ lookup := some 5 }, {}, { delete := some 5 }].map .ofLines) = .ok (beats₁, e₁) ∧
        e₁.tick (.ofLines { delete := some 5 }) = .ok o₁ ∧ o₁.result = .ok out₁ ∧
        e₁.phase = .idle ∧ e₁.inFlight.count = 0 ∧
        Lines.exclusive? { delete := some 5 } = some (.delete 5) :=
    ⟨_, _, _, _, rfl, rfl, rfl, rfl, rfl, rfl⟩
  obtain ⟨hticks₁, -⟩ := (writes_exclude_lookups ofLanes_clashingLanes ready_clashingLanes
    [{ lookup := some 5 }, {}, { delete := some 5 }]).ok hrun₁
  obtain ⟨hiff, hphases⟩ := (hticks₁ _ o₁ ho₁).1 out₁ hout₁
  obtain ⟨haccepted, -⟩ := (hiff (.delete 5)).2 ⟨hidle₁, hcount₁, hasked₁⟩
  refine ⟨beats, e', o, out, hrun, ho, hout, fun r hr => ?_, ?_, hsame, beats₁, e₁, o₁, out₁,
    hrun₁, ho₁, hout₁, haccepted, (hphases hidle₁).2.1.2 (.inl ⟨5, haccepted⟩)⟩
  · obtain ⟨-, hzero, -⟩ := (((hticks _ o ho).1 out hout).1 r).1 hr
    rw [hcount] at hzero
    cases hzero
  · rw [← List.length_pos_iff, hpending]
    decide

end Engine
end ClockedCuckoo
