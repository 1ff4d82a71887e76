import ClockedCuckoo.Proofs.FrontendRun
import ClockedCuckoo.Proofs.Inserting

/-! A run that times out can be resumed: what it and a second run come to is what a single run comes
to that is given both budgets. -/

namespace ClockedCuckoo

def Outcome.ending {σ ε α : Type} (o : Outcome σ ε α) : σ × Except ε α :=
  (o.state, o.result)

namespace Frontend

def lateBy (n : Nat) : Except Error Nat → Except Error Nat
  | .ok t => .ok (n + t)
  | .error (.timeout op t) => .error (.timeout op (n + t))
  | .error e => .error e

theorem lateBy_zero (r : Except Error Nat) : lateBy 0 r = r := by
  cases r with
  | ok t => simp [lateBy]
  | error e => cases e <;> simp [lateBy]

theorem lateBy_lateBy (m n : Nat) (r : Except Error Nat) :
    lateBy m (lateBy n r) = lateBy (m + n) r := by
  cases r with
  | ok t => simp [lateBy, Nat.add_assoc]
  | error e => cases e <;> simp [lateBy, Nat.add_assoc]

def later (n : Nat) (x : Checked (Frontend × Except Error Nat)) :
    Checked (Frontend × Except Error Nat) :=
  x.map fun p => (p.1, lateBy n p.2)

theorem later_zero (x : Checked (Frontend × Except Error Nat)) : later 0 x = x := by
  cases x with
  | error v => rfl
  | ok p => exact congrArg (fun r => Except.ok (p.1, r)) (lateBy_zero p.2)

theorem later_later (m n : Nat) (x : Checked (Frontend × Except Error Nat)) :
    later m (later n x) = later (m + n) x := by
  cases x with
  | error v => rfl
  | ok p => exact congrArg (fun r => Except.ok (p.1, r)) (lateBy_lateBy m n p.2)

def runEnd (f : Frontend) (budget : Nat) : Checked (Frontend × Except Error Nat) :=
  (f.run budget).map Outcome.ending

def performEnd (f : Frontend) (r : Request) (budget : Nat) :
    Checked (Frontend × Except Error Unit) :=
  (f.perform r budget).map Outcome.ending

def told (op : Operation) : Except Error Nat → Except Error Unit
  | .ok _ => .ok ()
  | .error e => .error (e.renamed op.name)

variable {f g : Frontend} {n budget : Nat}

theorem performEnd_eq (f : Frontend) (r : Request) (budget : Nat) :
    f.performEnd r budget = ((f.push r).runEnd budget).map (Prod.map id (told r.operation)) := by
  unfold performEnd runEnd perform
  cases (f.push r).run budget <;> rfl

theorem runFrom_late (f : Frontend) (n spent : Nat) (trace trace' : List Event) (budget : Nat) :
    (f.runFrom (n + spent) trace budget).map Outcome.ending =
      later n ((f.runFrom spent trace' budget).map Outcome.ending) := by
  induction budget generalizing f spent trace trace' with
  | zero =>
    unfold runFrom
    split <;> rfl
  | succ budget ih =>
    unfold runFrom
    split
    · rfl
    · cases f.step with
      | error v => rfl
      | ok o =>
        dsimp only
        cases o.result with
        | error d => rfl
        | ok out => exact ih o.state (spent + 1) _ _

theorem runEnd_of_atRest (h : f.atRest = true) (budget : Nat) :
    f.runEnd budget = .ok (f, .ok 0) := by
  rw [runEnd, run, runFrom.eq_def, if_pos h]
  rfl

theorem runEnd_zero (h : f.atRest = false) :
    f.runEnd 0 = .ok (f, .error (.timeout "run_until_quiescent" 0)) := by
  rw [runEnd, run, runFrom, if_neg (Bool.eq_false_iff.1 h)]
  rfl

theorem runEnd_succ (h : f.atRest = false) (budget : Nat) :
    f.runEnd (budget + 1) =
      match f.step with
      | .error v => .error v
      | .ok o =>
        match o.result with
        | .error d => .ok (o.state, .error (.duplicateKey d))
        | .ok _ => later 1 (o.state.runEnd budget) := by
  rw [runEnd, run, runFrom, if_neg (Bool.eq_false_iff.1 h)]
  cases f.step with
  | error v => rfl
  | ok o =>
    dsimp only
    cases o.result with
    | error d => rfl
    | ok out => exact runFrom_late o.state 1 0 _ [] budget

/-- `n` steps in a row go through without a fault, and none of them is made at rest. -/
inductive Strides : Frontend → Nat → Frontend → Prop
  | refl (f : Frontend) : Strides f 0 f
  | step {f g : Frontend} {n : Nat} {o : Outcome Frontend Duplicate Outputs} {out : Outputs} :
    f.atRest = false → f.step = .ok o → o.result = .ok out → Strides o.state n g →
      Strides f (n + 1) g

theorem Strides.runEnd (h : f.Strides n g) (budget : Nat) :
    f.runEnd (n + budget) = later n (g.runEnd budget) := by
  induction h with
  | refl f => rw [Nat.zero_add, later_zero]
  | @step f g n o out hrest ho hout _ ih =>
    rw [Nat.add_right_comm, runEnd_succ hrest, ho]
    dsimp only
    rw [hout, ih, later_later, Nat.add_comm 1 n]

theorem Strides.play (h : f.Strides n g) (acts : List Action) :
    ∃ beats : List Beat, (∀ b ∈ beats, ∃ out, b.result = .ok out) ∧
      f.play (List.replicate n .step ++ acts) =
        (g.play acts).map fun p => (beats ++ p.1, p.2) := by
  induction h with
  | refl f =>
    refine ⟨[], by simp, ?_⟩
    rw [List.replicate_zero, List.nil_append]
    cases f.play acts <;> rfl
  | @step f g n o out _ ho hout _ ih =>
    obtain ⟨beats, hall, hplay⟩ := ih
    refine ⟨f.beat o :: beats, List.forall_mem_cons.2 ⟨⟨out, hout⟩, hall⟩, ?_⟩
    rw [List.replicate_succ, List.cons_append, Frontend.play, ho]
    dsimp only
    rw [hplay]
    cases g.play acts <;> rfl

/-- What a run can come to within its budget: rest, a timeout, a fault, or a broken rule. -/
inductive Ends (f : Frontend) (budget : Nat) : Checked (Frontend × Except Error Nat) → Prop
  | rested {g : Frontend} {n : Nat} : n ≤ budget → f.Strides n g → g.atRest = true →
    Ends f budget (.ok (g, .ok n))
  | timedOut {g : Frontend} : f.Strides budget g → g.atRest = false →
    Ends f budget (.ok (g, .error (.timeout "run_until_quiescent" budget)))
  | failed {g : Frontend} {n : Nat} {o : Outcome Frontend Duplicate Outputs} {d : Duplicate} :
    n < budget → f.Strides n g → g.atRest = false → g.step = .ok o → o.result = .error d →
    Ends f budget (.ok (o.state, .error (.duplicateKey d)))
  | broken {g : Frontend} {n : Nat} {v : Violation} :
    n < budget → f.Strides n g → g.atRest = false → g.step = .error v → Ends f budget (.error v)

theorem Ends.late {o : Outcome Frontend Duplicate Outputs} {out : Outputs}
    (hrest : f.atRest = false) (ho : f.step = .ok o) (hout : o.result = .ok out)
    {x : Checked (Frontend × Except Error Nat)} (h : o.state.Ends budget x) :
    f.Ends (budget + 1) (later 1 x) := by
  have hsucc : ∀ {n g}, o.state.Strides n g → f.Strides (n + 1) g := .step hrest ho hout
  cases h with
  | @rested g n hn hs hg =>
    have hlate : later 1 (.ok (g, .ok n)) = .ok (g, .ok (n + 1)) := by
      rw [Nat.add_comm]
      rfl
    rw [hlate]
    exact .rested (Nat.succ_le_succ hn) (hsucc hs) hg
  | @timedOut g hs hg =>
    have hlate : later 1 (.ok (g, .error (.timeout "run_until_quiescent" budget))) =
        .ok (g, .error (.timeout "run_until_quiescent" (budget + 1))) := by
      rw [Nat.add_comm]
      rfl
    rw [hlate]
    exact .timedOut (hsucc hs) hg
  | failed hn hs hg ho' hd => exact .failed (Nat.succ_lt_succ hn) (hsucc hs) hg ho' hd
  | broken hn hs hg hv => exact .broken (Nat.succ_lt_succ hn) (hsucc hs) hg hv

theorem ends (f : Frontend) (budget : Nat) : f.Ends budget (f.runEnd budget) := by
  induction budget generalizing f with
  | zero =>
    cases hrest : f.atRest with
    | true =>
      rw [runEnd_of_atRest hrest]
      exact .rested (Nat.le_refl _) (.refl f) hrest
    | false =>
      rw [runEnd_zero hrest]
      exact .timedOut (.refl f) hrest
  | succ budget ih =>
    cases hrest : f.atRest with
    | true =>
      rw [runEnd_of_atRest hrest]
      exact .rested (Nat.zero_le _) (.refl f) hrest
    | false =>
      rw [runEnd_succ hrest]
      cases ho : f.step with
      | error v => exact .broken (Nat.succ_pos _) (.refl f) hrest ho
      | ok o =>
        dsimp only
        cases hout : o.result with
        | error d => exact .failed (Nat.succ_pos _) (.refl f) hrest ho hout
        | ok out => exact .late hrest ho hout (ih o.state)

theorem Ends.of_timeout {op : String} {t : Nat}
    (h : f.Ends budget (.ok (g, .error (.timeout op t)))) :
    op = "run_until_quiescent" ∧ t = budget ∧ f.Strides budget g ∧ g.atRest = false := by
  cases h with
  | timedOut hs hg => exact ⟨rfl, rfl, hs, hg⟩

theorem strides_of_timeout {op : String} {t : Nat}
    (h : f.runEnd budget = .ok (g, .error (.timeout op t))) :
    op = "run_until_quiescent" ∧ t = budget ∧ f.Strides budget g ∧ g.atRest = false := by
  have hends := f.ends budget
  rw [h] at hends
  exact hends.of_timeout

theorem Strides.timedOut (h : f.Strides budget g) (hg : g.atRest = false) :
    f.runEnd budget = .ok (g, .error (.timeout "run_until_quiescent" budget)) := by
  have hrun := h.runEnd 0
  rwa [Nat.add_zero, runEnd_zero hg] at hrun

theorem told_eq_timeout {op : Operation} {r : Except Error Nat} {t : Nat} {name : String}
    (h : told op r = .error (.timeout name t)) :
    name = op.name ∧ ∃ name', r = .error (.timeout name' t) := by
  cases r with
  | ok n => cases h
  | error e =>
    cases e with
    | timeout name' t' =>
      cases h
      exact ⟨rfl, name', rfl⟩
    | invalidConfig reason | shapeMismatch expected actual | duplicateKey d => cases h

theorem runEnd_of_performEnd {r : Request} {name : String} {t : Nat}
    (h : f.performEnd r budget = .ok (g, .error (.timeout name t))) :
    name = r.operation.name ∧
      ∃ name', (f.push r).runEnd budget = .ok (g, .error (.timeout name' t)) := by
  rw [performEnd_eq] at h
  cases hrun : (f.push r).runEnd budget with
  | error v =>
    rw [hrun] at h
    cases h
  | ok p =>
    rw [hrun] at h
    obtain ⟨hg, htold⟩ := Prod.mk.inj (Except.ok.inj h)
    obtain ⟨hname, name', hr⟩ := told_eq_timeout htold
    exact ⟨hname, name', congrArg Except.ok (Prod.ext hg hr)⟩

theorem play_of_run {o : Outcome Frontend Error Nat} (h : f.run budget = .ok o) :
    ∃ m ≤ budget, ∃ beats, f.play (List.replicate m .step) = .ok (beats, o.state) ∧
      ∀ n, o.result = .ok n → n = m ∧ o.state.atRest = true ∧
        ∀ b ∈ beats, ∃ out, b.result = .ok out := by
  obtain ⟨g, r, events⟩ := o
  have hends := f.ends budget
  rw [runEnd, h] at hends
  have hplay : ∀ {n g'}, f.Strides n g' → ∃ beats : List Beat,
      (∀ b ∈ beats, ∃ out, b.result = .ok out) ∧
        f.play (List.replicate n .step) = .ok (beats, g') := by
    intro n g' hs
    obtain ⟨beats, hall, hplay⟩ := hs.play []
    rw [List.append_nil] at hplay
    exact ⟨beats, hall, hplay.trans (by simp [play, Except.map])⟩
  cases hends with
  | rested hn hs hrest =>
    obtain ⟨beats, hall, hplay⟩ := hplay hs
    refine ⟨_, hn, beats, hplay, fun n hn => ?_⟩
    cases hn
    exact ⟨rfl, hrest, hall⟩
  | timedOut hs hrest =>
    obtain ⟨beats, -, hplay⟩ := hplay hs
    refine ⟨budget, Nat.le_refl _, beats, hplay, fun n hn => ?_⟩
    cases hn
  | @failed g' n o d hn hs hrest ho hd =>
    obtain ⟨beats, -, hplay⟩ := hs.play [.step]
    rw [← List.replicate_succ', play, ho] at hplay
    refine ⟨n + 1, hn, _, hplay, fun t ht => ?_⟩
    cases ht

/-- A run makes at most `max` steps and is at rest when it ends well. It times out exactly when so many
steps go through and none of them meets rest or leads to it, and can then be resumed: it and a second
run come to what a single run comes to, and so do a request that timed out and a run after it. -/
theorem timeout_resumes (f : Frontend) (max : Nat) :
    f.Ends max (f.runEnd max) ∧
    ((∃ g, f.runEnd max = .ok (g, .error (.timeout "run_until_quiescent" max))) ↔
      ∃ g, f.Strides max g ∧ g.atRest = false) ∧
    (∀ g name t, f.runEnd max = .ok (g, .error (.timeout name t)) →
      name = "run_until_quiescent" ∧ t = max ∧
        ∀ b, f.runEnd (max + b) = later max (g.runEnd b)) ∧
    ∀ r g name t, f.performEnd r max = .ok (g, .error (.timeout name t)) →
      name = r.operation.name ∧ t = max ∧
        ∀ b, f.performEnd r (max + b) =
          (later max (g.runEnd b)).map (Prod.map id (told r.operation)) := by
  refine ⟨f.ends max, ⟨?_, ?_⟩, fun g name t h => ?_, fun r g name t h => ?_⟩
  · rintro ⟨g, h⟩
    exact ⟨g, (strides_of_timeout h).2.2⟩
  · rintro ⟨g, hs, hg⟩
    exact ⟨g, hs.timedOut hg⟩
  · obtain ⟨hname, ht, hs, -⟩ := strides_of_timeout h
    exact ⟨hname, ht, hs.runEnd⟩
  · obtain ⟨hname, name', hrun⟩ := runEnd_of_performEnd h
    obtain ⟨-, ht, hs, -⟩ := strides_of_timeout hrun
    refine ⟨hname, ht, fun b => ?_⟩
    rw [performEnd_eq, hs.runEnd]

/-- An insert is given two cycles and then the rest of its time. -/
theorem timeout_resumes_insert :
    ∃ g g', (ofEngine (Engine.smallEngine fun _ => id)).performEnd (.insert 1 10) 2 =
        .ok (g, .error (.timeout "insert" 2)) ∧
      g.runEnd 3 = .ok (g', .ok 2) ∧ g'.ticks = 4 ∧
      (ofEngine (Engine.smallEngine fun _ => id)).performEnd (.insert 1 10) (2 + 3) =
        .ok (g', .ok ()) := by
  obtain ⟨⟨g, r⟩, hg, hr, hnext⟩ := exists_of_toOption_any
    (x := (ofEngine (Engine.smallEngine fun _ => id)).performEnd (.insert 1 10) 2)
    (p := fun p => p.2 = .error (.timeout "insert" 2) ∧
      (p.1.runEnd 3).toOption.any fun q => q.2 = .ok 2 ∧ q.1.ticks = 4)
    (by decide +kernel)
  obtain ⟨⟨g', r'⟩, hg', hr', hticks⟩ := exists_of_toOption_any hnext
  cases hr
  cases hr'
  obtain ⟨-, -, -, hperform⟩ := timeout_resumes (ofEngine (Engine.smallEngine fun _ => id)) 2
  refine ⟨g, g', hg, hg', hticks, ?_⟩
  rw [(hperform _ _ _ _ hg).2.2 3, hg']
  rfl

end Frontend
end ClockedCuckoo
