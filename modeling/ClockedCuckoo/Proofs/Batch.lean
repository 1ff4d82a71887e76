import ClockedCuckoo.Proofs.Calls
import ClockedCuckoo.Proofs.Ports

/-! A front end at rest stands for a map. Requests queued together change it kind after kind: the cleans
come first, then the deletes, then the inserts, and the lookups are answered from what these leave. -/

namespace ClockedCuckoo

namespace Store

variable {c : Config} {m : Store} {rs : List Request}

theorem after_of_clean (h : ∀ r ∈ rs, r.operation = .clean) :
    after c m rs = if rs = [] then m else .empty := by
  induction rs generalizing m with
  | nil => rfl
  | cons r rs ih =>
    obtain ⟨hr, hrs⟩ := List.forall_mem_cons.1 h
    cases r with
    | clean =>
      have hcons : after c m (.clean :: rs) = after c .empty rs := rfl
      rw [hcons, ih hrs, if_neg (List.cons_ne_nil _ _), ite_self]
    | delete key | insert key data | lookup key => cases hr

theorem after_of_lookup (h : ∀ r ∈ rs, r.operation = .lookup) : after c m rs = m := by
  induction rs with
  | nil => rfl
  | cons r rs ih =>
    obtain ⟨hr, hrs⟩ := List.forall_mem_cons.1 h
    cases r with
    | lookup key => exact ih hrs
    | clean | delete key | insert key data => cases hr

theorem expected_of_exclusive (h : ∀ r ∈ rs, r.isExclusive = true) : expected c m rs = [] := by
  induction rs generalizing m with
  | nil => rfl
  | cons r rs ih =>
    obtain ⟨hr, hrs⟩ := List.forall_mem_cons.1 h
    rw [expected, ih hrs, Request.lookup?_of_exclusive _ hr]
    rfl

theorem expected_of_lookup (h : ∀ r ∈ rs, r.operation = .lookup) :
    expected c m rs = (rs.filterMap (Request.lookup? c.keyMask)).map m.answer := by
  induction rs with
  | nil => rfl
  | cons r rs ih =>
    obtain ⟨hr, hrs⟩ := List.forall_mem_cons.1 h
    cases r with
    | lookup key =>
      have hcons : expected c m (.lookup key :: rs) =
          m.answer (key &&& c.keyMask) :: expected c m rs := rfl
      rw [hcons, ih hrs]
      rfl
    | clean | delete key | insert key data => cases hr

end Store

theorem Request.filterMap_lookup?_ofKind (keyMask : Word) (rs : List Request) :
    (ofKind .lookup rs).filterMap (lookup? keyMask) = rs.filterMap (lookup? keyMask) := by
  rw [ofKind, List.filterMap_filter]
  apply List.filterMap_congr
  intro r _
  cases r <;> rfl

theorem Request.ofKind_clean_eq_nil {rs : List Request} : ofKind .clean rs = [] ↔ .clean ∉ rs := by
  rw [ofKind, List.filter_eq_nil_iff]
  constructor
  · exact fun h hmem => h _ hmem rfl
  · intro h r hr
    cases r with
    | clean => exact absurd hr h
    | delete key | insert key data | lookup key => simp [operation]

section Kinds

variable (c : Config) (m : Store) (rs : List Request)

theorem Store.after_kinds :
    after c m (Request.ofKind .clean rs ++ Request.ofKind .delete rs ++
      Request.ofKind .insert rs ++ Request.ofKind .lookup rs) =
    after c (if .clean ∈ rs then .empty else m)
      (Request.ofKind .delete rs ++ Request.ofKind .insert rs) := by
  rw [after_append, after_of_lookup fun r hr => (Request.mem_ofKind.1 hr).2, List.append_assoc,
    after_append, after_of_clean fun r hr => (Request.mem_ofKind.1 hr).2]
  simp only [Request.ofKind_clean_eq_nil, ite_not]

theorem Store.expected_kinds :
    expected c m (Request.ofKind .clean rs ++ Request.ofKind .delete rs ++
      Request.ofKind .insert rs ++ Request.ofKind .lookup rs) =
    (rs.filterMap (Request.lookup? c.keyMask)).map
      (after c m (Request.ofKind .clean rs ++ Request.ofKind .delete rs ++
        Request.ofKind .insert rs ++ Request.ofKind .lookup rs)).answer := by
  have hlookups : ∀ r ∈ Request.ofKind .lookup rs, r.operation = .lookup :=
    fun r hr => (Request.mem_ofKind.1 hr).2
  have hexclusive : ∀ r ∈ Request.ofKind .clean rs ++ Request.ofKind .delete rs ++
      Request.ofKind .insert rs, r.isExclusive = true := by
    intro r hr
    simp only [List.mem_append, Request.mem_ofKind] at hr
    rcases hr with (⟨-, hop⟩ | ⟨-, hop⟩) | ⟨-, hop⟩ <;> rw [Request.isExclusive, hop] <;> rfl
  rw [expected_append, expected_of_exclusive hexclusive, expected_of_lookup hlookups,
    after_append _ _ (Request.ofKind .lookup rs), after_of_lookup hlookups,
    Request.filterMap_lookup?_ofKind]
  rfl

end Kinds

namespace Engine

def store (e : Engine) : Store :=
  fun key => e.pairs.lookup key

variable {c : Config} {e e' e'' : Engine} {keys : List Key} {m : Store}

theorem mem_pairs_of_store {key : Key} {data : Data} (h : e.store key = some data) :
    (key, data) ∈ e.pairs := by
  obtain ⟨as, bs, hpairs, -⟩ := List.lookup_eq_some_iff.1 h
  rw [hpairs]
  exact List.mem_append_right _ (List.mem_cons_self ..)

theorem Placed.store_eq_some (h : e.Placed) {key : Key} {data : Data} :
    e.store key = some data ↔ e.Holds key data := by
  rw [← h.mem_pairs]
  constructor
  · exact mem_pairs_of_store
  · intro hmem
    cases hs : e.store key with
    | none => simpa using List.lookup_eq_none_iff.1 hs _ hmem
    | some d =>
      -- Only one entry of the key is found, so the one found first is it.
      obtain ⟨t, hf, rfl⟩ := h.mem_pairs.1 hmem
      have hd := (h.holds_iff_of_found hf).1 (h.mem_pairs.1 (mem_pairs_of_store hs))
      rw [hd]

theorem Represents.store_eq (h : e.Represents m) (hs : e.Placed) (hp : e.phase = .idle) :
    e.store = m := by
  funext key
  apply Option.ext
  intro data
  rw [hs.store_eq_some, h.idle hp]

variable {hash : Nat → Key → Word} {depth : Nat → Nat}

/-- Since a time of rest, the map has changed by the requests accepted. Each lookup among them is answered
from the map that it meets, or still to be answered from the last of these. -/
theorem follows_since_rest (h : ofLanes c (emptyLanes c hash depth) = .ok e) (hr : e.Reaches e')
    (hp : e'.phase = .idle) (hcount : e'.inFlight.count = 0) {ls : List Lines}
    {beats : List Beat} (hrun : e'.run (ls.map .ofLines) = .ok (beats, e'')) :
    ∃ keys, e''.Accounted keys ∧ e''.Placed ∧
      e''.Represents (Store.after c e'.store (Beat.accepted beats)) ∧
      Store.expected c e'.store (Beat.accepted beats) =
        (Beat.responses beats).map Response.answer ++
          (e''.awaited keys).map (Store.after c e'.store (Beat.accepted beats)).answer := by
  obtain ⟨ls₀, before, hrun₀⟩ := hr
  have hall : e.run ((ls₀ ++ ls).map .ofLines) = .ok (before ++ beats, e'') := by
    rw [List.map_append]
    exact run_append_of_ok hrun₀ hrun
  obtain ⟨keys, hf⟩ := follows_of_run h hrun₀
  obtain ⟨keys', hf'⟩ := follows_of_run h hall
  have hstore := hf.represents.store_eq hf.sound.toPlaced hp
  have hrepresents := hf'.represents
  have hanswers := hf.answers
  have hanswers' := hf'.answers
  rw [hf.accounted.awaited_of_count hcount, List.map_nil, List.append_nil] at hanswers
  rw [Beat.accepted_append, Store.after_append, ← hstore] at hrepresents
  rw [Beat.accepted_append, Store.expected_append, Store.after_append, Beat.responses_append,
    List.map_append, hanswers, ← hstore, List.append_assoc] at hanswers'
  exact ⟨keys', hf'.accounted, hf'.sound.toPlaced, hrepresents, List.append_cancel_left hanswers'⟩

theorem store_of_runs (h : ofLanes c (emptyLanes c hash depth) = .ok e) (hr : e.Reaches e')
    (hp : e'.phase = .idle) (hcount : e'.inFlight.count = 0) {ls : List Lines}
    {beats : List Beat} (hrun : e'.run (ls.map .ofLines) = .ok (beats, e''))
    (hp' : e''.phase = .idle) (hcount' : e''.inFlight.count = 0) :
    e''.Placed ∧ e''.store = Store.after c e'.store (Beat.accepted beats) ∧
      (Beat.responses beats).map Response.answer =
        Store.expected c e'.store (Beat.accepted beats) := by
  obtain ⟨keys, hk, hplaced, hrepresents, hanswers⟩ := follows_since_rest h hr hp hcount hrun
  rw [hk.awaited_of_count hcount', List.map_nil, List.append_nil] at hanswers
  exact ⟨hplaced, hrepresents.store_eq hplaced hp', hanswers.symm⟩

end Engine

namespace Frontend

variable {f f' g : Frontend} {budget : Nat}

theorem removeLast?_snoc {α : Type} {p : α → Bool} {x : α} (h : p x = true) (xs : List α) :
    removeLast? p (xs ++ [x]) = some (x, xs) := by
  induction xs with
  | nil => simp [removeLast?, h]
  | cons y ys ih =>
    rw [List.cons_append, removeLast?, ih]

theorem lookup_eq_ok {key : Key} {o : Outcome Frontend Error Unit} {resp : Response}
    (h : f.perform (.lookup key) budget = .ok o) (hok : o.result = .ok ()) (others : List Response)
    (hresponses : o.state.responses = f.responses ++ (others ++ [resp]))
    (hkey : resp.key = key &&& f.engine.config.keyMask) :
    f.lookup key budget =
      .ok ⟨{ o.state with responses := f.responses ++ others }, .ok resp, o.events⟩ := by
  have htaken : removeLast? (fun r : Response => r.key == key &&& f.engine.config.keyMask)
      (others ++ [resp]) = some (resp, others) := by
    apply removeLast?_snoc
    exact beq_iff_eq.2 hkey
  rw [lookup, h]
  dsimp only
  rw [hok]
  dsimp only
  rw [hresponses, List.take_left, List.drop_left, htaken]

theorem waiting_pushes (f : Frontend) (rs : List Request) (op : Operation) :
    (rs.foldl push f).waiting op = f.waiting op ++ Request.ofKind op rs := by
  induction rs generalizing f with
  | nil => exact (List.append_nil _).symm
  | cons r rs ih =>
    have hcons : Request.ofKind op (r :: rs) = Request.ofKind op [r] ++ Request.ofKind op rs :=
      List.filter_append [r] rs
    rw [List.foldl_cons, ih, waiting_push, hcons, List.append_assoc]

theorem pushes_eq (f : Frontend) (rs : List Request) :
    (rs.foldl push f).engine = f.engine ∧ (rs.foldl push f).responses = f.responses := by
  induction rs generalizing f with
  | nil => exact ⟨rfl, rfl⟩
  | cons r rs ih => exact ih (f.push r)

theorem outstanding_of_atRest (h : f.atRest = true) : f.outstanding = [] := by
  rw [outstanding, List.flatMap_eq_nil_iff]
  exact fun op _ => waiting_of_atRest h op

theorem outstanding_pushes (h : f.atRest = true) (rs : List Request) :
    (rs.foldl push f).outstanding = Request.ofKind .clean rs ++ Request.ofKind .delete rs ++
      Request.ofKind .insert rs ++ Request.ofKind .lookup rs := by
  have hwaiting : (rs.foldl push f).waiting = fun op => Request.ofKind op rs := by
    funext op
    rw [waiting_pushes, waiting_of_atRest h, List.nil_append]
  simp [outstanding, hwaiting, Operation.ranked]

/-- The requests are done in `n` steps: accepted kind after kind, with the map and the responses that
belong to this order. -/
structure Completes (c : Config) (f : Frontend) (rs : List Request) (n : Nat) (f' : Frontend) :
    Prop where
  order : ∃ beats, (rs.foldl push f).play (List.replicate n .step) = .ok (beats, f') ∧
    Beat.accepted beats = Request.ofKind .clean rs ++ Request.ofKind .delete rs ++
      Request.ofKind .insert rs ++ Request.ofKind .lookup rs
  nodup_keys : (f'.engine.entries.map (·.key)).Nodup
  store_eq : f'.engine.store =
    Store.after c (if .clean ∈ rs then .empty else f.engine.store)
      (Request.ofKind .delete rs ++ Request.ofKind .insert rs)
  responses : ∃ rsp, f'.responses = f.responses ++ rsp ∧ rsp.map Response.answer =
    (rs.filterMap (Request.lookup? c.keyMask)).map f'.engine.store.answer

variable {c : Config} {e : Engine} {hash : Nat → Key → Word} {depth : Nat → Nat}

theorem Reaches.of_empty (h : Engine.ofLanes c (Engine.emptyLanes c hash depth) = .ok e)
    (hr : (ofEngine e).Reaches f) : e.Reaches f.engine ∧ f.engine.Open := by
  apply hr.engine
  obtain ⟨-, -, -, rfl⟩ := Engine.ofLanes_eq_ok h
  intro l hl
  obtain ⟨i, -, rfl⟩ := List.mem_map.1 hl
  rfl

theorem store_of_play (h : Engine.ofLanes c (Engine.emptyLanes c hash depth) = .ok e)
    (hr : (ofEngine e).Reaches f) (hrest : f.atRest = true) {rs : List Request}
    {acts : List Action} {beats : List Beat}
    (hplay : (rs.foldl push f).play acts = .ok (beats, f')) (hrest' : f'.atRest = true) :
    f'.engine.Placed ∧ f'.engine.store = Store.after c f.engine.store (Beat.accepted beats) ∧
      (Beat.responses beats).map Response.answer =
        Store.expected c f.engine.store (Beat.accepted beats) := by
  obtain ⟨hreach, hopen⟩ := hr.of_empty h
  obtain ⟨hengine, -⟩ := pushes_eq f rs
  have hrun := (run_of_play (hengine.symm ▸ hopen) hplay).1
  rw [hengine] at hrun
  obtain ⟨hp, hcount, -⟩ := engine_of_atRest hrest
  obtain ⟨hp', hcount', -⟩ := engine_of_atRest hrest'
  exact Engine.store_of_runs h hreach hp hcount hrun hp' hcount'

theorem completes_of_run (h : Engine.ofLanes c (Engine.emptyLanes c hash depth) = .ok e)
    (hr : (ofEngine e).Reaches f) (hrest : f.atRest = true) {rs : List Request}
    {o : Outcome Frontend Error Nat} {n : Nat} (ho : (rs.foldl push f).run budget = .ok o)
    (hn : o.result = .ok n) : Completes c f rs n o.state := by
  obtain ⟨m, -, beats, hplay, hok⟩ := play_of_run ho
  obtain ⟨rfl, hrest', -⟩ := hok n hn
  have horder := outstanding_play hplay
  rw [outstanding_pushes hrest, outstanding_of_atRest hrest', List.append_nil] at horder
  obtain ⟨hplaced, hstore, hanswers⟩ := store_of_play h hr hrest hplay hrest'
  refine ⟨⟨beats, hplay, horder.symm⟩, hplaced.nodup_keys, ?_, Beat.responses beats, ?_, ?_⟩
  · rw [hstore, ← horder, Store.after_kinds]
  · rw [responses_play hplay, (pushes_eq f rs).2]
  · rw [hanswers, hstore, ← horder, Store.expected_kinds]

theorem Completes.store_of_singleton {r : Request} {n : Nat} (h : Completes c f [r] n f') :
    f'.engine.store = f.engine.store.apply c r := by
  rw [h.store_eq]
  cases r <;> rfl

theorem Completes.lookup_eq_ok {key : Key} {n : Nat} {o : Outcome Frontend Error Nat}
    (h : Completes c f [.lookup key] n o.state) (hc : f.engine.config = c)
    (ho : (f.push (.lookup key)).run budget = .ok o) (hn : o.result = .ok n) :
    ∃ o' resp, f.lookup key budget = .ok o' ∧ o'.result = .ok resp ∧
      resp.answer = f.engine.store.answer (key &&& c.keyMask) ∧
      o'.state.engine.store = f.engine.store ∧ o'.state.responses = f.responses := by
  obtain ⟨rsp, hresponses, hanswers⟩ := h.responses
  have hstore : o.state.engine.store = f.engine.store := h.store_of_singleton
  rw [hstore] at hanswers
  obtain ⟨resp, rfl, hresp⟩ := List.map_eq_singleton_iff.1 hanswers
  have hkey : resp.key = key &&& f.engine.config.keyMask := by
    rw [hc]
    exact congrArg Prod.fst hresp
  have hperform : f.perform (.lookup key) budget =
      .ok { state := o.state, result := .ok (), events := o.events } := by
    rw [perform, ho]
    dsimp only
    rw [hn]
  exact ⟨_, resp, Frontend.lookup_eq_ok hperform rfl [] hresponses hkey, rfl, hresp,
    hstore, List.append_nil _⟩

/-- Requests queued at rest are accepted kind after kind, change the map in this order and are answered
from what it comes to. Queued one at a time they follow the map one by one. -/
theorem batches_follow_store (h : Engine.ofLanes c (Engine.emptyLanes c hash depth) = .ok e)
    (hr : (ofEngine e).Reaches f) (hrest : f.atRest = true) :
    (∀ rs budget o n, (rs.foldl push f).run budget = .ok o → o.result = .ok n →
      Completes c f rs n o.state) ∧
    (∀ r budget o, f.perform r budget = .ok o → o.result = .ok () →
      o.state.engine.store = f.engine.store.apply c r) ∧
    ∀ key budget o n, (f.push (.lookup key)).run budget = .ok o → o.result = .ok n →
      ∃ o' resp, f.lookup key budget = .ok o' ∧ o'.result = .ok resp ∧
        resp.answer = f.engine.store.answer (key &&& c.keyMask) ∧
        o'.state.engine.store = f.engine.store ∧ o'.state.responses = f.responses := by
  refine ⟨fun rs budget o n ho hn => completes_of_run h hr hrest ho hn,
    fun r budget o ho hok => ?_, fun key budget o n ho hn => ?_⟩
  · obtain ⟨o', ho', hstate, hn⟩ := perform_eq_ok ho
    obtain ⟨n, hn⟩ := hn hok
    have hdone : Completes c f [r] n o'.state := completes_of_run h hr hrest ho' hn
    rw [hstate]
    exact hdone.store_of_singleton
  · obtain ⟨⟨ls, beats, hrun⟩, -⟩ := hr.of_empty h
    obtain ⟨keys, hf⟩ := Engine.follows_of_run h hrun
    have hdone : Completes c f [.lookup key] n o.state := completes_of_run h hr hrest ho hn
    exact hdone.lookup_eq_ok hf.config_eq ho hn

/-- The lookups of 1 and 3 are pushed before the insert and the delete, and see what these leave. -/
theorem batches_follow_store_mixed :
    ∃ f o, (ofEngine (Engine.smallEngine fun _ => id)).Reaches f ∧ f.atRest = true ∧
      f.engine.pairs = [(1, 10)] ∧
      ([.lookup 1, .lookup 3, .insert 3 30, .delete 1].foldl push f).run 40 = .ok o ∧
      o.result = .ok 13 ∧ o.state.engine.pairs = [(3, 30)] ∧
      o.state.responses.map Response.answer = [(1, false, none), (3, true, some 30)] ∧
      Completes Engine.smallConfig f [.lookup 1, .lookup 3, .insert 3 30, .delete 1] 13
        o.state := by
  obtain ⟨o₀, ho₀, hrest, hpairs, hnext⟩ := exists_of_toOption_any
    (x := (ofEngine (Engine.smallEngine fun _ => id)).perform (.insert 1 10) 20)
    (p := fun o₀ => o₀.state.atRest = true ∧ o₀.state.engine.pairs = [(1, 10)] ∧
      (([.lookup 1, .lookup 3, .insert 3 30, .delete 1].foldl push o₀.state).run 40).toOption.any
        fun o => o.result = .ok 13 ∧ o.state.engine.pairs = [(3, 30)] ∧
          o.state.responses.map Response.answer = [(1, false, none), (3, true, some 30)])
    (by decide +kernel)
  obtain ⟨o, ho, hn, hpairs', hresponses⟩ := exists_of_toOption_any hnext
  have hr : (ofEngine (Engine.smallEngine fun _ => id)).Reaches o₀.state := .perform .refl ho₀
  have hlaws := batches_follow_store (Engine.ofLanes_smallEngine _) hr hrest
  exact ⟨_, o, hr, hrest, hpairs, ho, hn, hpairs', hresponses, hlaws.1 _ _ _ _ ho hn⟩

end Frontend
end ClockedCuckoo
