import ClockedCuckoo.Proofs.Exclusion
import ClockedCuckoo.Proofs.FrontendRun

/-! The ports of a front end. A request on its way is queued, held on its line and accepted; no port
loses a request, takes it twice or lets one overtake another, whatever the steps in between come to. -/

namespace ClockedCuckoo

/-- The kinds of requests, the one that is accepted first coming first. -/
def Operation.ranked : List Operation :=
  [.clean, .delete, .insert, .lookup]

def Request.ofKind (op : Operation) (rs : List Request) : List Request :=
  rs.filter (·.operation == op)

def Lines.held? (l : Lines) : Operation → Option Request
  | .clean => if l.clean then some .clean else none
  | .delete => l.delete.map .delete
  | .insert => l.insert.map fun (key, data) => .insert key data
  | .lookup => l.lookup.map .lookup

def Backlog.queued (b : Backlog) : Operation → List Request
  | .clean => List.replicate b.cleans .clean
  | .delete => b.deletes.map .delete
  | .insert => b.inserts.map fun (key, data) => .insert key data
  | .lookup => b.lookups.map .lookup

def Frontend.waiting (f : Frontend) (op : Operation) : List Request :=
  (f.lines.held? op).toList ++ f.backlog.queued op

def Frontend.outstanding (f : Frontend) : List Request :=
  Operation.ranked.flatMap f.waiting

namespace Request

variable {op : Operation} {rs ss : List Request}

theorem ofKind_append : ofKind op (rs ++ ss) = ofKind op rs ++ ofKind op ss :=
  List.filter_append ..

theorem ofKind_singleton (op : Operation) (r : Request) :
    ofKind op [r] = if r.operation = op then [r] else [] := by
  by_cases h : r.operation = op <;> simp [ofKind, h]

theorem mem_ofKind {r : Request} : r ∈ ofKind op rs ↔ r ∈ rs ∧ r.operation = op := by
  rw [ofKind, List.mem_filter, beq_iff_eq]

end Request

theorem Backlog.queued_push (b : Backlog) (r : Request) (op : Operation) :
    (b.push r).queued op = b.queued op ++ Request.ofKind op [r] := by
  rw [Request.ofKind_singleton]
  cases r <;> cases op <;> simp [push, queued, Request.operation, List.replicate_succ']

theorem Backlog.eq_of_isEmpty {b : Backlog} (h : b.isEmpty = true) : b = {} := by
  obtain ⟨cleans, deletes, inserts, lookups⟩ := b
  simp only [isEmpty, Bool.and_eq_true, beq_iff_eq, List.isEmpty_iff] at h
  obtain ⟨⟨⟨rfl, rfl⟩, rfl⟩, rfl⟩ := h
  rfl

theorem Backlog.raise_append_rest_map {α : Type} (g : α → Request) (held : Option α)
    (queue : List α) : ((raise held queue).map g).toList ++ (rest held queue).map g =
      (held.map g).toList ++ queue.map g := by
  have h := congrArg (List.map g) (raise_append_rest held queue)
  rwa [List.map_append, List.map_append, ← Option.toList_map, ← Option.toList_map] at h

theorem Backlog.rest_eq_nil {α : Type} {held : Option α} {queue : List α}
    (h : raise held queue = none) : rest held queue = [] := by
  cases held <;> cases queue <;> simp_all [raise, rest]

namespace Lines

variable {l : Lines} {r : Request} {op : Operation}

theorem operation_of_held? (h : l.held? op = some r) : r.operation = op := by
  cases op with
  | clean =>
    obtain ⟨-, hr⟩ := Option.ite_none_right_eq_some.1 h
    cases hr
    rfl
  | delete | insert | lookup =>
    obtain ⟨_, -, rfl⟩ := Option.map_eq_some_iff.1 h
    rfl

theorem held?_release (l : Lines) (r : Request) (op : Operation) :
    (l.release (some r)).held? op = if r.operation = op then none else l.held? op := by
  cases r <;> cases op <;> rfl

theorem eq_of_isQuiet (h : l.isQuiet = true) : l = { resultReady := l.resultReady } := by
  obtain ⟨clean, delete, insert, lookup, ready⟩ := l
  simp only [isQuiet, hasExclusive, Bool.and_eq_true, Bool.not_eq_true', Bool.or_eq_false_iff,
    Option.isSome_eq_false_iff, Option.isNone_iff_eq_none] at h
  obtain ⟨⟨⟨rfl, rfl⟩, rfl⟩, rfl⟩ := h
  rfl

theorem held?_of_isQuiet (h : l.isQuiet = true) (op : Operation) : l.held? op = none := by
  rw [eq_of_isQuiet h]
  cases op <;> rfl

end Lines

theorem Lines.findSome?_of_exclusive? {l : Lines} {r : Request} (h : l.exclusive? = some r) :
    Operation.ranked.findSome? l.held? = some r := by
  obtain ⟨clean, delete, insert, lookup, ready⟩ := l
  cases clean <;> cases delete <;> cases insert <;>
    simp_all [Lines.exclusive?, Operation.ranked, Lines.held?, List.findSome?_cons]

namespace Engine

variable {e : Engine} {lines : Lines} {r : Request}

theorem findSome?_of_accepted? (h : e.accepted? lines = some r) :
    Operation.ranked.findSome? lines.held? = some r := by
  have hp := (accepted?_cases h).1
  cases hx : lines.hasExclusive with
  | true =>
    rw [accepted?_of_exclusive hp hx] at h
    split at h
    · exact Lines.findSome?_of_exclusive? h
    · cases h
  | false =>
    rw [accepted?_of_no_exclusive hp hx] at h
    split at h
    · obtain ⟨key, hkey, rfl⟩ := Option.map_eq_some_iff.1 h
      simp only [Lines.hasExclusive, Bool.or_eq_false_iff, Option.isSome_eq_false_iff,
        Option.isNone_iff_eq_none] at hx
      obtain ⟨⟨hc, hd⟩, hi⟩ := hx
      simp [Operation.ranked, Lines.held?, hc, hd, hi, hkey]
    · cases h

theorem held?_of_accepted? (h : e.accepted? lines = some r) :
    lines.held? r.operation = some r := by
  obtain ⟨pre, op, post, -, hheld, -⟩ :=
    List.findSome?_eq_some_iff.1 (findSome?_of_accepted? h)
  rwa [Lines.operation_of_held? hheld]

end Engine

namespace Frontend

variable {f f' : Frontend} {acts : List Action} {beats : List Beat} {op : Operation}
  {o : Outcome Frontend Duplicate Outputs}

theorem waiting_push (f : Frontend) (r : Request) (op : Operation) :
    (f.push r).waiting op = f.waiting op ++ Request.ofKind op [r] := by
  show (f.lines.held? op).toList ++ (f.backlog.push r).queued op = _
  rw [Backlog.queued_push, ← List.append_assoc]
  rfl

theorem waiting_setReady (f : Frontend) (ready : Bool) (op : Operation) :
    (f.setReady ready).waiting op = f.waiting op := by
  cases op <;> rfl

theorem waiting_fillLines (f : Frontend) (op : Operation) :
    f.fillLines.waiting op = f.waiting op := by
  obtain ⟨e, b, ⟨clean, delete, insert, lookup, ready⟩, responses, ticks⟩ := f
  cases op with
  | clean =>
    cases clean with
    | true => rfl
    | false =>
      obtain ⟨cleans, deletes, inserts, lookups⟩ := b
      cases cleans <;> rfl
  | delete => exact Backlog.raise_append_rest_map ..
  | insert => exact Backlog.raise_append_rest_map ..
  | lookup => exact Backlog.raise_append_rest_map ..

theorem waiting_eq_nil_of_free (h : f.fillLines.lines.held? op = none) : f.waiting op = [] := by
  rw [← waiting_fillLines, waiting, h]
  obtain ⟨e, b, ⟨clean, delete, insert, lookup, ready⟩, responses, ticks⟩ := f
  cases op with
  | clean =>
    obtain ⟨cleans, deletes, inserts, lookups⟩ := b
    cases clean <;> cases cleans <;> simp_all [fillLines, Lines.held?, Backlog.fill,
      Backlog.drain, Backlog.queued]
  | delete | insert | lookup =>
    have hrest := Backlog.rest_eq_nil (Option.map_eq_none_iff.1 h)
    simpa [fillLines, Backlog.drain, Backlog.queued] using hrest

theorem held?_fillLines {r : Request} (h : f.lines.held? op = some r) :
    f.fillLines.lines.held? op = some r := by
  cases op with
  | clean =>
    obtain ⟨hclean, hr⟩ := Option.ite_none_right_eq_some.1 h
    cases hr
    simp [fillLines, Lines.held?, Backlog.fill, hclean]
  | delete | insert | lookup =>
    obtain ⟨_, hline, rfl⟩ := Option.map_eq_some_iff.1 h
    simp [fillLines, Lines.held?, Backlog.fill, Backlog.raise, hline]

theorem waiting_step (h : f.step = .ok o) (op : Operation) :
    f.waiting op = Request.ofKind op (f.beat o).accepted?.toList ++ o.state.waiting op := by
  rw [← waiting_fillLines]
  cases hr : o.result with
  | error d =>
    have hnone : (f.beat o).accepted? = none := by simp [Beat.accepted?, beat, hr]
    rw [hnone, step_of_error h hr]
    rfl
  | ok out =>
    obtain ⟨hout, hlines, hbacklog, -⟩ := step_of_ok h hr
    have haccepted : (f.beat o).accepted? = out.accepted := by simp [Beat.accepted?, beat, hr]
    rw [haccepted, waiting, waiting, hlines, hbacklog]
    cases hacc : out.accepted with
    | none => rfl
    | some r =>
      have hheld : f.fillLines.lines.held? r.operation = some r := by
        apply Engine.held?_of_accepted? (e := f.engine)
        rw [← hacc, hout]
        rfl
      rw [Lines.held?_release, Option.toList_some, Request.ofKind_singleton]
      by_cases hop : r.operation = op
      · subst hop
        rw [hheld, if_pos rfl, if_pos rfl]
        rfl
      · rw [if_neg hop, if_neg hop]
        rfl

theorem accepted?_beat_eq_some {r : Request} (h : f.step = .ok o)
    (hr : (f.beat o).accepted? = some r) :
    f.engine.accepted? f.fillLines.lines = some r := by
  obtain ⟨o', ho, rfl⟩ := step_eq_ok h
  exact Engine.accepted?_of_cycle ho rfl hr

theorem outstanding_step (h : f.step = .ok o) :
    f.outstanding = (f.beat o).accepted?.toList ++ o.state.outstanding := by
  have hstep := waiting_step h
  cases hacc : (f.beat o).accepted? with
  | none =>
    rw [hacc] at hstep
    exact congrArg (List.flatMap · Operation.ranked) (funext hstep)
  | some r =>
    obtain ⟨pre, op, post, hranked, hheld, hfree⟩ := List.findSome?_eq_some_iff.1
      (Engine.findSome?_of_accepted? (accepted?_beat_eq_some h hacc))
    obtain rfl := Lines.operation_of_held? hheld
    have hnodup : (pre ++ r.operation :: post).Nodup := hranked ▸ (by decide)
    rw [hacc, Option.toList_some] at hstep
    -- Nothing waits above the request, and its own kind is the only one that it leaves.
    have hpre : ∀ op ∈ pre, f.waiting op = [] ∧ o.state.waiting op = [] := by
      intro op hop
      have hnil := waiting_eq_nil_of_free (hfree op hop)
      exact ⟨hnil, (List.append_eq_nil_iff.1 ((hstep op).symm.trans hnil)).2⟩
    have hpost : ∀ op ∈ post, f.waiting op = o.state.waiting op := by
      intro op hop
      have hne : r.operation ≠ op := by
        rintro rfl
        exact (List.nodup_cons.1 (List.nodup_append.1 hnodup).2.1).1 hop
      rw [hstep op, Request.ofKind_singleton, if_neg hne]
      rfl
    rw [outstanding, outstanding, hranked, List.flatMap_append, List.flatMap_append,
      List.flatMap_cons, List.flatMap_cons, List.flatMap_eq_nil_iff.2 fun op hop => (hpre op hop).1,
      List.flatMap_eq_nil_iff.2 fun op hop => (hpre op hop).2, List.flatMap_congr hpost,
      hstep r.operation, Request.ofKind_singleton, if_pos rfl]
    rfl

/-- What waited before and was pushed since was accepted, or waits still. -/
theorem waiting_play (h : f.play acts = .ok (beats, f')) (op : Operation) :
    f.waiting op ++ Request.ofKind op (Action.pushed acts) =
      Request.ofKind op (Beat.accepted beats) ++ f'.waiting op := by
  have hp := played h
  clear h
  induction hp with
  | nil => exact List.append_nil _
  | @push f f' r acts beats _ ih =>
    have hpushed : Action.pushed (.push r :: acts) = [r] ++ Action.pushed acts := rfl
    rw [hpushed, Request.ofKind_append, ← List.append_assoc, ← waiting_push]
    exact ih
  | @setReady f f' ready acts beats _ ih =>
    have hpushed : Action.pushed (.setReady ready :: acts) = Action.pushed acts := rfl
    rw [hpushed, ← waiting_setReady f ready]
    exact ih
  | @step f f' acts beats o ho _ ih =>
    have hpushed : Action.pushed (.step :: acts) = Action.pushed acts := rfl
    rw [hpushed, accepted_beats, Request.ofKind_append, List.append_assoc, ← ih,
      ← List.append_assoc, ← waiting_step ho]

theorem outstanding_play {n : Nat} (h : f.play (List.replicate n .step) = .ok (beats, f')) :
    f.outstanding = Beat.accepted beats ++ f'.outstanding := by
  induction n generalizing f beats with
  | zero =>
    cases h
    rfl
  | succ n ih =>
    obtain ⟨o, beats', ho, hplay, rfl⟩ := play_step h
    rw [outstanding_step ho, ih hplay, accepted_beats, List.append_assoc]

theorem engine_of_atRest (h : f.atRest = true) :
    f.engine.phase = .idle ∧ f.engine.inFlight.count = 0 ∧
      f.engine.staging.holdsLookup = false := by
  rw [atRest, Bool.and_eq_true] at h
  exact Engine.atRest_eq_true.1 h.2

theorem waiting_of_atRest (h : f.atRest = true) (op : Operation) : f.waiting op = [] := by
  rw [atRest, Bool.and_eq_true, Bool.and_eq_true] at h
  obtain ⟨⟨hquiet, hempty⟩, -⟩ := h
  have hqueued : f.backlog.queued op = [] := by
    rw [Backlog.eq_of_isEmpty hempty]
    cases op <;> rfl
  rw [waiting, Lines.held?_of_isQuiet hquiet, hqueued]
  rfl

variable {c : Config} {lanes : List Lane} {e : Engine}

/-- At every port the requests pushed are those accepted, the one on the line and those queued, in this
order. A step that fails takes none of them. At rest all are accepted, and each lookup among them has its
outcome. -/
theorem ports_keep_order (h : Engine.ofLanes c lanes = .ok e)
    (hready : ∀ l ∈ lanes, l.bank.hasher.IsTotal ∧ 0 < l.bank.depth ∧ l.bank.results = [])
    (hgates : ∀ l ∈ lanes, l.gate = {}) (acts : List Action) :
    (ofEngine e).PlaysTo acts fun beats f =>
      (∀ op, Request.ofKind op (Action.pushed acts) =
        Request.ofKind op (Beat.accepted beats) ++ (f.lines.held? op).toList ++
          f.backlog.queued op) ∧
      (∀ o d, f.step = .ok o → o.result = .error d →
        o.state.engine.phase = .idle ∧
        (o.state.engine.staging = f.engine.staging ∨ o.state.engine.staging = {}) ∧
        ∀ op, (o.state.lines.held? op).toList ++ o.state.backlog.queued op =
            (f.lines.held? op).toList ++ f.backlog.queued op ∧
          ∀ r, f.lines.held? op = some r → o.state.lines.held? op = some r) ∧
      f.backlog.pending = (f.backlog.queued .clean).length + (f.backlog.queued .delete).length +
        (f.backlog.queued .insert).length + (f.backlog.queued .lookup).length ∧
      (f.atRest = true →
        (∀ op, Request.ofKind op (Action.pushed acts) =
          Request.ofKind op (Beat.accepted beats)) ∧
        List.Forall₂ Engine.Settled (Beat.asked beats) (Beat.told beats)) := by
  have hstart := Engine.accounted_start h hready
  obtain ⟨-, -, -, rfl⟩ := Engine.ofLanes_eq_ok h
  apply playsTo_of_runsTo (p := fun beats e' => ∃ keys, Engine.Settles beats e' keys)
  · exact hgates
  · exact fun ls => Engine.runsTo_settles hstart rfl rfl (visible_ofLines ls)
  rintro beats f hplay ⟨keys, hs⟩
  have hconserved : ∀ op, Request.ofKind op (Action.pushed acts) =
      Request.ofKind op (Beat.accepted beats) ++ f.waiting op := by
    intro op
    rw [← waiting_play hplay op]
    cases op <;> rfl
  refine ⟨fun op => ?_, fun o d ho hd => ?_, ?_, fun hrest => ⟨fun op => ?_, ?_⟩⟩
  · rw [hconserved, waiting, List.append_assoc]
  · rw [step_of_error ho hd]
    refine ⟨rfl, ?_, fun op => ⟨waiting_fillLines f op, fun r hr => held?_fillLines hr⟩⟩
    by_cases hp : f.engine.phase.isIdle = true
    · exact .inl (if_pos hp)
    · exact .inr (if_neg hp)
  · simp [Backlog.pending, Backlog.queued]
  · rw [hconserved, waiting_of_atRest hrest, List.append_nil]
  · exact hs.forall₂_of_count (engine_of_atRest hrest).2.1

/-- The lookup of 5 fails while the lines hold a delete and an insert and another insert is queued. -/
theorem ports_keep_order_clash :
    ∃ beats f o, (ofEngine (.start Engine.smallConfig Engine.clashingLanes)).play
        [.push (.lookup 5), .step, .push (.delete 5), .push (.insert 4 40), .push (.insert 4 41),
          .step] = .ok (beats, f) ∧
      f.step = .ok o ∧ o.result = .error ⟨5, [0, 1]⟩ ∧
      (o.state.lines.held? .insert).toList ++ o.state.backlog.queued .insert =
        [.insert 4 40, .insert 4 41] ∧
      o.state.lines.held? .delete = some (.delete 5) ∧ Beat.accepted beats = [.lookup 5] := by
  have hplays := ports_keep_order Engine.ofLanes_clashingLanes Engine.ready_clashingLanes
    Engine.gate_clashingLanes
    [.push (.lookup 5), .step, .push (.delete 5), .push (.insert 4 40), .push (.insert 4 41), .step]
  obtain ⟨-, hfault, -⟩ := hplays.ok rfl
  obtain ⟨-, -, hkept⟩ := hfault _ _ rfl rfl
  exact ⟨_, _, _, rfl, rfl, rfl, (hkept .insert).1, (hkept .delete).2 _ rfl, rfl⟩

end Frontend
end ClockedCuckoo
