import ClockedCuckoo.Proofs.Phases

/-! Which request an idle engine accepts, and the phase it starts. -/

namespace ClockedCuckoo

def Lines.exclusive? (l : Lines) : Option Request :=
  if l.clean then some .clean
  else match l.delete, l.insert with
    | some key, _ => some (.delete key)
    | none, some (key, data) => some (.insert key data)
    | none, none => none

theorem Lines.isExclusive_of_exclusive? {l : Lines} {r : Request} (h : l.exclusive? = some r) :
    r.isExclusive = true := by
  rw [exclusive?] at h
  split at h
  · cases h
    rfl
  · split at h <;> cases h <;> rfl

namespace Engine

variable {e : Engine} {lines : Lines}

theorem accepted?_of_exclusive (hp : e.phase = .idle) (h : lines.hasExclusive = true) :
    e.accepted? lines = if e.lookupsDone then lines.exclusive? else none := by
  have hi : e.phase.isIdle = true := Phase.isIdle_eq_true.2 hp
  obtain ⟨clean, delete, insert, lookup, ready⟩ := lines
  cases hd : e.lookupsDone <;> cases clean <;> cases delete <;> cases insert <;>
    simp_all [accepted?, Arbiter.ready, Arbiter.Ready.pick?, conditions, Lines.exclusive?,
      Lines.hasExclusive]

theorem accepted?_of_no_exclusive (hp : e.phase = .idle) (h : lines.hasExclusive = false) :
    e.accepted? lines =
      if (!e.staging.holdsLookup || e.lookupTaken) && e.inFlight.hasRoom then
        lines.lookup.map .lookup
      else none := by
  have hi : e.phase.isIdle = true := Phase.isIdle_eq_true.2 hp
  obtain ⟨clean, delete, insert, lookup, ready⟩ := lines
  simp only [Lines.hasExclusive, Bool.or_eq_false_iff, Option.isSome_eq_false_iff,
    Option.isNone_iff_eq_none] at h
  obtain ⟨⟨rfl, rfl⟩, rfl⟩ := h
  simp [accepted?, Arbiter.ready, Arbiter.Ready.pick?, conditions, Lines.hasExclusive, hi]

theorem accepted?_cases {r : Request} (h : e.accepted? lines = some r) :
    e.phase = .idle ∧
      ((r.isExclusive = true ∧ e.lookupsDone = true) ∨
        (∃ key, r = .lookup key) ∧ e.inFlight.hasRoom = true ∧
          (e.staging.holdsLookup = false ∨ e.lookupTaken = true)) := by
  have hp : e.phase = .idle := by
    by_cases hp : e.phase = .idle
    · exact hp
    · rw [accepted?_of_ne hp] at h
      cases h
  refine ⟨hp, ?_⟩
  cases hx : lines.hasExclusive with
  | true =>
    rw [accepted?_of_exclusive hp hx] at h
    split at h
    · exact .inl ⟨Lines.isExclusive_of_exclusive? h, ‹_›⟩
    · cases h
  | false =>
    rw [accepted?_of_no_exclusive hp hx] at h
    split at h
    · rename_i hok
      obtain ⟨key, -, rfl⟩ := Option.map_eq_some_iff.1 h
      rw [Bool.and_eq_true, Bool.or_eq_true, Bool.not_eq_true'] at hok
      exact .inr ⟨⟨key, rfl⟩, hok.2, hok.1⟩
    · cases h

theorem started_of_no_exclusive (h : e.exclusiveAccepted lines = false) :
    Phase.started (e.accepted? lines) = .idle := by
  rw [exclusiveAccepted] at h
  cases hr : e.accepted? lines with
  | none => rfl
  | some r =>
    rw [hr, Option.any_some] at h
    cases r with
    | lookup key => rfl
    | clean | delete key | insert key data => cases h

theorem accepted?_of_exclusiveAccepted (h : e.exclusiveAccepted lines = true) :
    ∃ r, e.accepted? lines = some r ∧ r.isExclusive = true ∧ e.lookupsDone = true ∧
      Phase.started (e.accepted? lines) ≠ .idle := by
  rw [exclusiveAccepted] at h
  cases hr : e.accepted? lines with
  | none =>
    rw [hr] at h
    cases h
  | some r =>
    rw [hr, Option.any_some] at h
    obtain ⟨-, ⟨-, hdone⟩ | ⟨⟨key, rfl⟩, -⟩⟩ := accepted?_cases hr
    · refine ⟨r, rfl, h, hdone, ?_⟩
      cases r with
      | lookup key => cases h
      | clean | delete key | insert key data => simp [Phase.started]
    · cases h

theorem hasRoom_of_lookupAccepted (h : e.lookupAccepted lines = true) :
    e.inFlight.hasRoom = true := by
  rw [lookupAccepted] at h
  cases hr : e.accepted? lines with
  | none =>
    rw [hr] at h
    cases h
  | some r =>
    rw [hr, Option.any_some] at h
    obtain ⟨-, ⟨hx, -⟩ | ⟨-, hroom, -⟩⟩ := accepted?_cases hr
    · cases r with
      | lookup key => cases hx
      | clean | delete key | insert key data => cases h
    · exact hroom

theorem nextPhase_of_idle (hp : e.phase = .idle) :
    e.nextPhase lines = Phase.started (e.accepted? lines) := by
  obtain ⟨clean, delete, insert, lookup, ready⟩ := lines
  cases hx : Lines.hasExclusive ⟨clean, delete, insert, lookup, ready⟩ with
  | true =>
    rw [accepted?_of_exclusive hp hx]
    cases hd : e.lookupsDone <;> cases clean <;> cases delete <;> cases insert <;>
      simp_all [nextPhase, Phase.next, signals, Phase.started, Lines.exclusive?,
        Lines.hasExclusive]
  | false =>
    rw [accepted?_of_no_exclusive hp hx]
    simp only [Lines.hasExclusive, Bool.or_eq_false_iff, Option.isSome_eq_false_iff,
      Option.isNone_iff_eq_none] at hx
    obtain ⟨⟨rfl, rfl⟩, rfl⟩ := hx
    split <;> cases lookup <;> simp [nextPhase, Phase.next, signals, Phase.started, hp]

end Engine
end ClockedCuckoo
