import Mathlib.Data.Nat.ModEq
import ClockedCuckoo.Proofs.FrontendRun

/-! Requests are cut to the configured widths when they are accepted, and until then nothing looks at
the bits above. Whether these are cut off at the ports already, or changed, makes no difference. -/

namespace ClockedCuckoo

namespace Word

theorem and_lowMask_eq_iff {width : Nat} {v w : Word} :
    v &&& lowMask width = w &&& lowMask width ↔ v.toNat ≡ w.toNat [MOD 2 ^ width] := by
  rw [← UInt64.toNat_inj, toNat_and_lowMask, toNat_and_lowMask]
  rcases Nat.le_total width 64 with h | h
  · rw [Nat.min_eq_left h]
    rfl
  · -- A mask of 64 bits or more keeps the word, and so does the remainder.
    have hmod : ∀ {n : Nat} (x : Word), 64 ≤ n → x.toNat % 2 ^ n = x.toNat := fun x hn =>
      Nat.mod_eq_of_lt (Nat.lt_of_lt_of_le x.toNat_lt (Nat.pow_le_pow_right (by decide) hn))
    unfold Nat.ModEq
    rw [Nat.min_eq_right h, hmod v h, hmod w h, hmod v (Nat.le_refl _), hmod w (Nat.le_refl _)]

theorem and_and_self (v m : Word) : v &&& m &&& m = v &&& m := by
  rw [UInt64.and_assoc, UInt64.and_self]

end Word

def Request.cut (c : Config) : Request → Request
  | .clean => .clean
  | .delete key => .delete (key &&& c.keyMask)
  | .insert key data => .insert (key &&& c.keyMask) (data &&& c.dataMask)
  | .lookup key => .lookup (key &&& c.keyMask)

def Lines.cut (c : Config) (l : Lines) : Lines :=
  { l with
    delete := l.delete.map (· &&& c.keyMask)
    insert := l.insert.map fun (key, data) => (key &&& c.keyMask, data &&& c.dataMask)
    lookup := l.lookup.map (· &&& c.keyMask) }

def Outputs.cut (c : Config) (out : Outputs) : Outputs :=
  { out with accepted := out.accepted.map (Request.cut c) }

def Outcome.map {σ τ ε α β : Type} (f : σ → τ) (g : α → β) (o : Outcome σ ε α) : Outcome τ ε β :=
  ⟨f o.state, o.result.map g, o.events⟩

@[simp] theorem Request.operation_cut (c : Config) (r : Request) :
    (r.cut c).operation = r.operation := by
  cases r <;> rfl

@[simp] theorem Request.isLookup_cut (c : Config) (r : Request) :
    (r.cut c).isLookup = r.isLookup := by
  cases r <;> rfl

@[simp] theorem Request.isExclusive_cut (c : Config) (r : Request) :
    (r.cut c).isExclusive = r.isExclusive := by
  cases r <;> rfl

@[simp] theorem Lines.hasExclusive_cut (c : Config) (l : Lines) :
    (l.cut c).hasExclusive = l.hasExclusive := by
  simp [hasExclusive, cut]

theorem Lines.release_cut (c : Config) (l : Lines) (r : Option Request) :
    (l.cut c).release (r.map (Request.cut c)) = (l.release r).cut c := by
  cases r with
  | none => rfl
  | some r => cases r <;> rfl

theorem Staging.take_cut (c : Config) (s : Staging) (accepted : Option Request) (taken : Bool) :
    s.take (accepted.map (Request.cut c)) taken c.keyMask c.dataMask =
      s.take accepted taken c.keyMask c.dataMask := by
  cases accepted with
  | none => rfl
  | some r => cases r <;> simp [take, Request.cut, Word.and_and_self]

namespace Arbiter

theorem ready_cut (c : Config) (lines : Lines) (conditions : Conditions) :
    ready (lines.cut c) conditions = ready lines conditions := by
  simp [ready, Lines.cut, Lines.hasExclusive]

theorem Ready.pick?_cut (c : Config) (g : Ready) (lines : Lines) :
    g.pick? (lines.cut c) = (g.pick? lines).map (Request.cut c) := by
  simp only [pick?, Option.map_or, apply_ite (Option.map (Request.cut c)), Option.map_none,
    Option.map_some, Lines.cut, Option.map_map]
  rfl

end Arbiter

namespace Engine

variable (e : Engine) (lines : Lines)

theorem accepted?_cut (c : Config) :
    e.accepted? (lines.cut c) = (e.accepted? lines).map (Request.cut c) := by
  rw [accepted?, accepted?, Arbiter.ready_cut, Arbiter.Ready.pick?_cut]

theorem signals_cut (c : Config) : e.signals (lines.cut c) = e.signals lines := by
  simp [signals, Lines.cut]

theorem exclusiveAccepted_cut (c : Config) :
    e.exclusiveAccepted (lines.cut c) = e.exclusiveAccepted lines := by
  simp [exclusiveAccepted, accepted?_cut, Option.any_map]

theorem lookupAccepted_cut (c : Config) :
    e.lookupAccepted (lines.cut c) = e.lookupAccepted lines := by
  simp [lookupAccepted, accepted?_cut, Option.any_map]

theorem measurements_cut (c : Config) : e.measurements (lines.cut c) = e.measurements lines := by
  have hstalls : e.stalls (lines.cut c) = e.stalls lines := by
    simp [stalls, accepted?_cut]
  rw [measurements, measurements, accepted?_cut, hstalls]
  cases e.accepted? lines with
  | none => rfl
  | some r => cases r <;> rfl

theorem outputs_cut (c : Config) : e.outputs (lines.cut c) = (e.outputs lines).cut c := by
  rw [outputs, accepted?_cut]
  rfl

theorem nextPhase_cut (c : Config) : e.nextPhase (lines.cut c) = e.nextPhase lines := by
  rw [nextPhase, signals_cut, nextPhase]

theorem events_cut (c : Config) : e.events (lines.cut c) = e.events lines := by
  rw [events, events, nextPhase_cut, accepted?_cut]
  cases e.accepted? lines with
  | none => rfl
  | some r => cases r <;> rfl

theorem advance_cut : e.advance (lines.cut e.config) = e.advance lines := by
  have hstaging : e.nextStaging (lines.cut e.config) = e.nextStaging lines := by
    rw [nextStaging, accepted?_cut, Staging.take_cut, nextStaging]
  have hcount : e.nextInFlight (lines.cut e.config) = e.nextInFlight lines := by
    rw [nextInFlight, lookupAccepted_cut]
    rfl
  have hrounds : e.nextRounds (lines.cut e.config) = e.nextRounds lines := by
    rw [nextRounds, exclusiveAccepted_cut, nextRounds]
  rw [advance, nextPhase_cut, hstaging, hcount, hrounds, measurements_cut]
  rfl

theorem advanceViolation?_cut (c : Config) :
    e.advanceViolation? (lines.cut c) = e.advanceViolation? lines := by
  rw [advanceViolation?, lookupAccepted_cut, signals_cut]
  rfl

theorem cycle_cut : e.cycle (lines.cut e.config) =
    (e.cycle lines).map (Outcome.map id (Outputs.cut e.config)) := by
  rw [cycle, cycle]
  cases e.fault? with
  | some d =>
    dsimp only
    cases e.discardViolation? <;> rfl
  | none =>
    simp only [advanceViolation?_cut, advance_cut, outputs_cut, events_cut]
    cases e.advanceViolation? lines <;> rfl

end Engine

def Word.Congruent (width : Nat) (v w : Word) : Prop :=
  v.toNat ≡ w.toNat [MOD 2 ^ width]

structure Lines.Congruent (c : Config) (l l' : Lines) : Prop where
  clean_eq : l.clean = l'.clean
  delete : Option.Rel (Word.Congruent c.keyWidth) l.delete l'.delete
  insert : Option.Rel (fun p q => Word.Congruent c.keyWidth p.1 q.1 ∧
    Word.Congruent c.dataWidth p.2 q.2) l.insert l'.insert
  lookup : Option.Rel (Word.Congruent c.keyWidth) l.lookup l'.lookup
  resultReady_eq : l.resultReady = l'.resultReady

structure Drive.Congruent (c : Config) (d d' : Drive) : Prop where
  lines : d.lines.Congruent c d'.lines
  gates_eq : d.gates = d'.gates

def Drive.cut (c : Config) (d : Drive) : Drive :=
  { d with lines := d.lines.cut c }

def Outputs.shown (out : Outputs) : Option Operation × Option Response :=
  (out.accepted.map Request.operation, out.response)

def Beat.shown (b : Beat) :
    Engine × Except Duplicate (Option Operation × Option Response) × List Event :=
  (b.start, b.result.map Outputs.shown, b.events)

def Engine.shown (e : Engine) (ds : List Drive) :
    Checked (List (Engine × Except Duplicate (Option Operation × Option Response) × List Event) ×
      Engine) :=
  (e.run ds).map (Prod.map (List.map Beat.shown) id)

theorem Option.map_eq_of_rel {α β : Type} {r : α → α → Prop} {g : α → β} {a b : Option α}
    (h : Option.Rel r a b) (hg : ∀ x y, r x y → g x = g y) : a.map g = b.map g := by
  cases h with
  | none => rfl
  | some hxy => exact congrArg some (hg _ _ hxy)

theorem Lines.Congruent.cut_eq {c : Config} {l l' : Lines} (h : l.Congruent c l') :
    l.cut c = l'.cut c := by
  have hkey : ∀ v w : Key, Word.Congruent c.keyWidth v w → v &&& c.keyMask = w &&& c.keyMask :=
    fun _ _ => Word.and_lowMask_eq_iff.2
  unfold cut
  rw [Lines.mk.injEq]
  refine ⟨h.clean_eq, Option.map_eq_of_rel h.delete hkey, Option.map_eq_of_rel h.insert ?_,
    Option.map_eq_of_rel h.lookup hkey, h.resultReady_eq⟩
  rintro ⟨key, data⟩ ⟨key', data'⟩ ⟨hk, hd⟩
  exact Prod.ext (hkey _ _ hk) (Word.and_lowMask_eq_iff.2 hd)

theorem Drive.Congruent.cut_eq {c : Config} {d d' : Drive} (h : d.Congruent c d') :
    d.cut c = d'.cut c := by
  rw [cut, cut, h.lines.cut_eq, h.gates_eq]

theorem Outputs.shown_cut (c : Config) (out : Outputs) : (out.cut c).shown = out.shown := by
  simp [shown, cut, Function.comp_def]

namespace Engine

theorem tick_cut (e : Engine) (d : Drive) :
    e.tick (d.cut e.config) = (e.tick d).map (Outcome.map id (Outputs.cut e.config)) :=
  cycle_cut (e.behind d.gates) d.lines

theorem shown_cons (e : Engine) (d : Drive) (ds : List Drive) :
    e.shown (d :: ds) =
      match e.tick d with
      | .error v => .error v
      | .ok o => (o.state.shown ds).map (Prod.map ((e.beat d o).shown :: ·) id) := by
  rw [shown, run]
  cases e.tick d with
  | error v => rfl
  | ok o =>
    dsimp only [shown]
    cases o.state.run ds <;> rfl

theorem shown_beat_cut (e : Engine) (d : Drive) (c : Config)
    (o : Outcome Engine Duplicate Outputs) :
    (e.beat (d.cut c) (o.map id (Outputs.cut c))).shown = (e.beat d o).shown := by
  have hresult : (o.map id (Outputs.cut c)).result.map Outputs.shown =
      o.result.map Outputs.shown := by
    unfold Outcome.map
    cases o.result with
    | error d => rfl
    | ok out => exact congrArg Except.ok (Outputs.shown_cut c out)
  unfold Beat.shown beat
  rw [hresult]
  rfl

theorem shown_cut (e : Engine) (ds : List Drive) :
    e.shown (ds.map (Drive.cut e.config)) = e.shown ds := by
  induction ds generalizing e with
  | nil => rfl
  | cons d ds ih =>
    rw [List.map_cons, shown_cons, shown_cons, tick_cut]
    cases ho : e.tick d with
    | error v => rfl
    | ok o =>
      have hc : o.state.config = e.config := config_of_cycle (e := e.behind d.gates) ho
      have hrest : (o.map id (Outputs.cut e.config)).state.shown (ds.map (Drive.cut e.config)) =
          o.state.shown ds := hc ▸ ih o.state
      simp only [Except.map, hrest, shown_beat_cut]

theorem shown_eq {e : Engine} {ds ds' : List Drive}
    (h : List.Forall₂ (Drive.Congruent e.config) ds ds') : e.shown ds = e.shown ds' := by
  have hcut : ds.map (Drive.cut e.config) = ds'.map (Drive.cut e.config) := by
    induction h with
    | nil => rfl
    | cons hd _ ih => rw [List.map_cons, List.map_cons, hd.cut_eq, ih]
  rw [← shown_cut e ds, hcut, shown_cut]

end Engine

def Backlog.cut (c : Config) (b : Backlog) : Backlog :=
  { b with
    deletes := b.deletes.map (· &&& c.keyMask)
    inserts := b.inserts.map fun (key, data) => (key &&& c.keyMask, data &&& c.dataMask)
    lookups := b.lookups.map (· &&& c.keyMask) }

def Frontend.cut (c : Config) (f : Frontend) : Frontend :=
  { f with backlog := f.backlog.cut c, lines := f.lines.cut c }

section Queues

variable {α β : Type} (g : α → β) (held : Option α) (queue : List α)

theorem Backlog.raise_map : raise (held.map g) (queue.map g) = (raise held queue).map g := by
  rw [raise, List.head?_map, raise, Option.map_or]

theorem Backlog.rest_map : rest (held.map g) (queue.map g) = (rest held queue).map g := by
  cases held with
  | none => exact List.map_tail.symm
  | some a => rfl

end Queues

namespace Frontend

variable {c : Config} {f : Frontend}

@[simp] theorem responses_cut (c : Config) (f : Frontend) : (f.cut c).responses = f.responses := rfl

theorem push_cut (c : Config) (f : Frontend) (r : Request) :
    (f.cut c).push (r.cut c) = (f.push r).cut c := by
  cases r <;> simp [push, cut, Backlog.push, Backlog.cut, Request.cut]

theorem fillLines_cut (c : Config) (f : Frontend) : (f.cut c).fillLines = f.fillLines.cut c := by
  have hfill : (f.backlog.cut c).fill (f.lines.cut c) = (f.backlog.fill f.lines).cut c := by
    simp only [Backlog.fill, Backlog.cut, Lines.cut, Backlog.raise_map]
  have hdrain : (f.backlog.cut c).drain (f.lines.cut c) = (f.backlog.drain f.lines).cut c := by
    simp only [Backlog.drain, Backlog.cut, Lines.cut, Backlog.rest_map]
    rfl
  unfold fillLines cut
  rw [hfill, hdrain]

theorem atRest_cut (c : Config) (f : Frontend) : (f.cut c).atRest = f.atRest := by
  have hquiet : (f.lines.cut c).isQuiet = f.lines.isQuiet := by
    rw [Lines.isQuiet, Lines.hasExclusive_cut, Lines.isQuiet]
    simp [Lines.cut]
  have hempty : (f.backlog.cut c).isEmpty = f.backlog.isEmpty := by
    simp [Backlog.isEmpty, Backlog.cut]
  unfold atRest
  rw [← hquiet, ← hempty]
  rfl

theorem settle_cut (c : Config) (f : Frontend) (o : Outcome Engine Duplicate Outputs) :
    (f.cut c).settle (o.map id (Outputs.cut c)) = (f.settle o).cut c := by
  unfold settle Outcome.map
  cases o.result with
  | error d => rfl
  | ok out =>
    have hrelease := Lines.release_cut c f.lines out.accepted
    show Frontend.mk _ _ ((f.lines.cut c).release (out.accepted.map (Request.cut c))) _ _ = _
    rw [hrelease]
    rfl

theorem config_of_step {o : Outcome Frontend Duplicate Outputs} (h : f.step = .ok o) :
    o.state.engine.config = f.engine.config := by
  obtain ⟨o', ho, rfl⟩ := step_eq_ok h
  rw [engine_settle, Engine.config_of_cycle ho]

theorem step_cut (hc : f.engine.config = c) :
    (f.cut c).step = f.step.map (Outcome.map (cut c) (Outputs.cut c)) := by
  have hcycle : (f.cut c).engine.cycle (f.fillLines.cut c).lines =
      (f.engine.cycle f.fillLines.lines).map (Outcome.map id (Outputs.cut c)) :=
    hc ▸ Engine.cycle_cut f.engine f.fillLines.lines
  rw [step_eq, step_eq, fillLines_cut, hcycle]
  cases f.engine.cycle f.fillLines.lines with
  | error v => rfl
  | ok o =>
    simp only [Except.map, settle_cut]
    rfl

theorem runFrom_cut (hc : f.engine.config = c) (spent : Nat) (trace : List Event) (budget : Nat) :
    (f.cut c).runFrom spent trace budget =
      (f.runFrom spent trace budget).map (Outcome.map (cut c) id) := by
  induction budget generalizing f spent trace with
  | zero =>
    unfold runFrom
    rw [atRest_cut]
    split <;> rfl
  | succ budget ih =>
    unfold runFrom
    rw [atRest_cut, step_cut hc]
    split
    · rfl
    · cases ho : f.step with
      | error v => rfl
      | ok o =>
        have hrest := ih ((config_of_step ho).trans hc)
        cases hr : o.result with
        | error d => simp [Except.map, Outcome.map, hr]
        | ok out =>
          simp only [Except.map, Outcome.map, hr]
          exact hrest _ _

theorem perform_cut (hc : f.engine.config = c) (r : Request) (budget : Nat) :
    (f.cut c).perform (r.cut c) budget = (f.perform r budget).map (Outcome.map (cut c) id) := by
  unfold perform run
  rw [push_cut, runFrom_cut (f := f.push r) hc, Request.operation_cut]
  cases (f.push r).runFrom 0 [] budget with
  | error v => rfl
  | ok o => cases hr : o.result <;> simp [Except.map, Outcome.map, hr]

theorem lookup_cut (hc : f.engine.config = c) (key : Key) (budget : Nat) :
    (f.cut c).lookup (key &&& c.keyMask) budget =
      (f.lookup key budget).map (Outcome.map (cut c) id) := by
  have hperform : (f.cut c).perform (.lookup (key &&& c.keyMask)) budget =
      (f.perform (.lookup key) budget).map (Outcome.map (cut c) id) :=
    perform_cut hc (.lookup key) budget
  have hmask : key &&& c.keyMask &&& (f.cut c).engine.config.keyMask =
      key &&& f.engine.config.keyMask := by
    subst hc
    exact Word.and_and_self ..
  unfold lookup
  rw [hperform, hmask]
  cases f.perform (.lookup key) budget with
  | error v => rfl
  | ok o =>
    cases hr : o.result with
    | error e => simp [Except.map, Outcome.map, hr]
    | ok _ =>
      simp only [Except.map, Outcome.map, hr, id_eq, responses_cut]
      cases removeLast? (fun r : Response => r.key == key &&& f.engine.config.keyMask)
        (o.state.responses.drop f.responses.length) <;> rfl

section Views

variable {ε α : Type} (x : Checked (Outcome Frontend ε α))

theorem result_map_cut (c : Config) :
    (x.map (Outcome.map (cut c) id)).map (·.result) = x.map (·.result) := by
  cases x with
  | error v => rfl
  | ok o => exact congrArg Except.ok (id_map o.result)

theorem engine_map_cut (c : Config) :
    (x.map (Outcome.map (cut c) id)).map (·.state.engine) = x.map (·.state.engine) := by
  cases x <;> rfl

end Views

/-- Bits above the configured widths are not noticed. Two runs of an engine whose requests differ there
look the same cycle by cycle, and go through the same states; and a lookup called on a front end with
either key has the same result. -/
theorem high_bits_unnoticed (f : Frontend) :
    (∀ ds ds', List.Forall₂ (Drive.Congruent f.engine.config) ds ds' →
      f.engine.shown ds = f.engine.shown ds') ∧
    ∀ key key' budget, Word.Congruent f.engine.config.keyWidth key key' →
      (f.lookup key budget).map (·.result) = (f.lookup key' budget).map (·.result) ∧
      (f.lookup key budget).map (·.state.engine) = (f.lookup key' budget).map (·.state.engine) := by
  refine ⟨fun ds ds' h => Engine.shown_eq h, fun key key' budget h => ?_⟩
  have hmask : key &&& f.engine.config.keyMask = key' &&& f.engine.config.keyMask :=
    Word.and_lowMask_eq_iff.2 h
  have hcut : (f.lookup key budget).map (Outcome.map (cut f.engine.config) id) =
      (f.lookup key' budget).map (Outcome.map (cut f.engine.config) id) := by
    rw [← lookup_cut rfl, hmask, lookup_cut rfl]
  refine ⟨?_, ?_⟩
  · rw [← result_map_cut _ f.engine.config, hcut, result_map_cut]
  · rw [← engine_map_cut _ f.engine.config, hcut, engine_map_cut]

/-- Eight bits of 261 and 5 agree, and so do those of 260 and 4 and of 296 and 40. -/
theorem high_bits_unnoticed_clash :
    ∃ p, (Engine.start Engine.smallConfig Engine.clashingLanes).shown
        ([{ lookup := some 261 }, {}, {}, { insert := some (260, 296) }, {}].map .ofLines) = .ok p ∧
      (Engine.start Engine.smallConfig Engine.clashingLanes).shown
        ([{ lookup := some 5 }, {}, {}, { insert := some (4, 40) }, {}].map .ofLines) = .ok p ∧
      p.1.map (·.2.1) = [.ok (some .lookup, none), .ok (none, none), .error ⟨5, [0, 1]⟩,
        .ok (some .insert, none), .ok (none, none)] ∧
      ((ofEngine (.start Engine.smallConfig Engine.clashingLanes)).lookup 261 9).map (·.result) =
        .ok (.error (.duplicateKey ⟨5, [0, 1]⟩)) := by
  obtain ⟨hruns, hlookups⟩ :=
    high_bits_unnoticed (ofEngine (.start Engine.smallConfig Engine.clashingLanes))
  have hidle : Drive.Congruent Engine.smallConfig (.ofLines {}) (.ofLines {}) :=
    ⟨⟨rfl, .none, .none, .none, rfl⟩, rfl⟩
  have hkey : Word.Congruent 8 261 5 := rfl
  have hpair : Word.Congruent 8 260 4 ∧ Word.Congruent 8 296 40 := ⟨rfl, rfl⟩
  have hds : List.Forall₂ (Drive.Congruent Engine.smallConfig)
      ([{ lookup := some 261 }, {}, {}, { insert := some (260, 296) }, {}].map .ofLines)
      ([{ lookup := some 5 }, {}, {}, { insert := some (4, 40) }, {}].map .ofLines) :=
    .cons ⟨⟨rfl, .none, .none, .some hkey, rfl⟩, rfl⟩ <| .cons hidle <| .cons hidle <|
      .cons ⟨⟨rfl, .none, .some hpair, .none, rfl⟩, rfl⟩ <| .cons hidle .nil
  obtain ⟨p, hp, hseen⟩ := exists_of_toOption_any
    (x := (Engine.start Engine.smallConfig Engine.clashingLanes).shown
      ([{ lookup := some 5 }, {}, {}, { insert := some (4, 40) }, {}].map .ofLines))
    (p := fun p => p.1.map (·.2.1) = [.ok (some .lookup, none), .ok (none, none),
      .error ⟨5, [0, 1]⟩, .ok (some .insert, none), .ok (none, none)])
    (by decide +kernel)
  refine ⟨p, (hruns _ _ hds).trans hp, hp, hseen, ?_⟩
  rw [(hlookups 261 5 9 hkey).1]
  decide +kernel

end Frontend
end ClockedCuckoo
