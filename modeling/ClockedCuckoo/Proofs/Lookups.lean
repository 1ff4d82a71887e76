import ClockedCuckoo.Proofs.Refinement

/-! Lookups are answered in the order in which they are accepted, from the map as it is then. The
answers that are still to come are those to the keys that the queues and the staging register hold. -/

namespace ClockedCuckoo

namespace Store

variable {c : Config} {m : Store}

theorem after_toList (accepted : Option Request) :
    after c m accepted.toList = match accepted with
      | some r => m.apply c r
      | none => m := by
  cases accepted <;> rfl

theorem expected_toList (accepted : Option Request) :
    expected c m accepted.toList =
      (accepted.bind (Request.lookup? c.keyMask)).toList.map m.answer := by
  cases accepted with
  | none => rfl
  | some r =>
    rw [Option.toList_some, expected, expected, List.append_nil, Option.bind_some]
    cases r.lookup? c.keyMask <;> rfl

end Store

theorem Request.lookup?_of_exclusive {r : Request} (keyMask : Word) (h : r.isExclusive = true) :
    r.lookup? keyMask = none := by
  cases r with
  | lookup key => cases h
  | clean | delete key | insert key data => rfl

namespace Engine

def awaited (e : Engine) (keys : List Key) : List Key :=
  if e.phase = .idle then keys ++ e.staging.lookup?.toList else []

variable {c : Config} {e e' : Engine} {keys keys' : List Key} {lines : Lines} {m : Store}

theorem awaited_of_ne (hp : e.phase ≠ .idle) : e.awaited keys = [] :=
  if_neg hp

theorem Accounted.awaited_of_count (h : e.Accounted keys) (hcount : e.inFlight.count = 0) :
    e.awaited keys = [] := by
  by_cases hp : e.phase = .idle
  · have hidle := h.idle hp
    rw [awaited, if_pos hp, ← List.length_eq_zero_iff, List.length_append,
      Staging.length_lookup?, hidle, hcount]
  · exact awaited_of_ne hp

/-- What is awaited before a cycle or asked in it is answered in it or awaited after it. -/
theorem Move.awaited_append {result : Except Duplicate Outputs} (hm : Move e lines e' result)
    (ha : e.Accounted keys) (hf : e.fault? = none) (ha' : e'.Accounted keys')
    (hkeys : e.phase = .idle → keys' = e.nextKeys keys lines) :
    e.awaited keys ++ ((e.accepted? lines).bind (Request.lookup? e.config.keyMask)).toList =
      (if e.delivers lines then keys.take 1 else []) ++ e'.awaited keys' := by
  by_cases hp : e.phase = .idle
  · obtain rfl := hkeys hp
    cases hm with
    | serve r _ _ =>
      cases hx : e.exclusiveAccepted lines with
      | false =>
        have htake := lookup?_take hx e.config.keyMask e.config.dataMask
        have hphase : (e.served lines r).phase = .idle := started_of_no_exclusive hx
        rw [awaited, if_pos hp, List.append_assoc, ← htake, awaited, if_pos hphase, nextKeys]
        cases e.delivers lines with
        | false => simp [served]
        | true =>
          cases keys <;> simp [served]
      | true =>
        -- An exclusive request is accepted only when nothing is awaited.
        obtain ⟨req, hacc, hreq, hdone, hstarted⟩ := accepted?_of_exclusiveAccepted hx
        obtain ⟨rfl, hzero, -⟩ := ha.keys_nil_of_lookupsDone hp hdone
        rw [ha.awaited_of_count hzero, awaited_of_ne hstarted, hacc, Option.bind_some,
          Request.lookup?_of_exclusive _ hreq]
        cases e.delivers lines <;> rfl
    | refuse r d _ hd =>
      rw [hf] at hd
      cases hd
    | _ => simp_all
  · rw [awaited_of_ne hp, accepted?_of_ne hp, delivers_of_ne hp]
    have hcount : e'.inFlight.count = 0 := by
      rw [hm.inFlight_eq hp]
      exact (ha.busy hp).1
    rw [ha'.awaited_of_count hcount]
    rfl

theorem nextStore_of_no_exclusive (hx : e.exclusiveAccepted lines = false) :
    e.nextStore lines m = m := by
  rw [exclusiveAccepted] at hx
  rw [nextStore]
  cases hacc : e.accepted? lines with
  | none => rfl
  | some r =>
    rw [hacc] at hx
    cases r with
    | lookup key => rfl
    | clean | delete key | insert key data => cases hx

theorem Move.awaited_answers {result : Except Duplicate Outputs} (hm : Move e lines e' result)
    (hf : e.fault? = none) :
    (e'.awaited keys).map (e.nextStore lines m).answer = (e'.awaited keys).map m.answer := by
  cases hx : e.exclusiveAccepted lines with
  | false => rw [nextStore_of_no_exclusive hx]
  | true =>
    obtain ⟨req, hacc, -, -, hstarted⟩ := accepted?_of_exclusiveAccepted hx
    have hp := (accepted?_cases hacc).1
    cases hm with
    | serve r _ _ =>
      rw [awaited_of_ne hstarted]
      rfl
    | refuse r d _ hd =>
      rw [hf] at hd
      cases hd
    | _ => simp_all

theorem answer_ofProbes (hb : e.Built keys) (hs : e.Placed)
    (hm : ∀ key data, m key = some data ↔ e.Holds key data) (key : Key) {r : Response}
    (hr : Response.ofProbes (e.reads key) e.config.banks = some r) : r.answer = m.answer key := by
  have hlen := hb.length_reads key
  have hkey : ∀ p ∈ e.reads key, p.key = key := by
    intro p hp
    obtain ⟨l, -, rfl⟩ := List.mem_map.1 hp
    rfl
  rcases Probe.found_cases (e.reads key) with ⟨t, p, hp, hf⟩ | hmiss
  · rw [Response.ofProbes_of_hit (hs.singleHit key) hlen hb.banks_le hp hf] at hr
    cases hr
    obtain ⟨ht, rfl⟩ := eq_readAt_of_getElem? hp
    rw [Store.answer, (hm key _).2 ⟨t, hf, rfl⟩]
    rfl
  · rw [Response.ofProbes_of_miss hlen hb.banks_le hmiss] at hr
    obtain ⟨p, hp, rfl⟩ := Option.map_eq_some_iff.1 hr
    have hnone : m key = none := by
      rw [Option.eq_none_iff_forall_ne_some]
      intro data hdata
      have hmisses : e.Misses key := fun t ht =>
        hmiss _ (List.mem_of_getElem? (getElem?_reads ht key))
      exact hmisses.not_holds ((hm key data).1 hdata)
    rw [Store.answer, hnone, Response.answer, hkey p (List.mem_of_head? hp)]
    rfl

theorem Built.response_of_delivers (h : e.Built keys) (hd : e.delivers lines = true) :
    ∃ key rest r, keys = key :: rest ∧ e.results? = some (e.reads key) ∧
      Response.ofProbes (e.reads key) e.config.banks = some r ∧
      (e.outputs lines).response = some r := by
  have hi : e.phase.isIdle = true := Phase.isIdle_eq_true.2 (idle_of_delivers hd)
  cases hr : e.results? with
  | none => simp [delivers, response?, hr] at hd
  | some ps =>
    obtain ⟨key, rest, rfl, rfl⟩ := h.results?_eq_some hr
    have hresp : e.response? = Response.ofProbes (e.reads key) e.config.banks := by
      rw [response?, if_pos hi, hr]
      rfl
    cases hof : Response.ofProbes (e.reads key) e.config.banks with
    | none => simp [delivers, hresp, hof] at hd
    | some r =>
      refine ⟨key, rest, r, rfl, rfl, hof, ?_⟩
      rw [outputs, if_pos hd, hresp, hof]

theorem answer_of_delivers (hb : e.Built keys) (hs : e.Placed) (hm : e.Represents m) :
    (e.outputs lines).response.toList.map Response.answer =
      (if e.delivers lines then keys.take 1 else []).map m.answer := by
  cases hd : e.delivers lines with
  | false =>
    rw [outputs, hd]
    rfl
  | true =>
    have hp := idle_of_delivers hd
    obtain ⟨key, rest, r, rfl, -, hof, hout⟩ := hb.response_of_delivers hd
    rw [hout]
    exact congrArg (· :: []) (answer_ofProbes hb hs (hm.idle hp) key hof)

/-- The engine after the given beats stands for the map that the accepted requests make up, and the
answers so far are those expected but for the lookups still awaited. -/
structure Follows (c : Config) (beats : List Beat) (e : Engine) (keys : List Key) : Prop where
  config_eq : e.config = c
  accounted : e.Accounted keys
  sound : e.Sound
  represents : e.Represents (Store.after c .empty (Beat.accepted beats))
  answers : Store.expected c .empty (Beat.accepted beats) =
    (Beat.responses beats).map Response.answer ++
      (e.awaited keys).map (Store.after c .empty (Beat.accepted beats)).answer
  ok : ∀ b ∈ beats, ∃ out, b.result = .ok out

theorem accepted_singleton {b : Beat} {out : Outputs} (h : b.result = .ok out) :
    Beat.accepted [b] = out.accepted.toList := by
  have hb : b.accepted? = out.accepted := by rw [Beat.accepted?, h]
  rw [Beat.accepted, List.filterMap_cons, hb]
  cases out.accepted <;> rfl

theorem responses_singleton {b : Beat} {out : Outputs} (h : b.result = .ok out) :
    Beat.responses [b] = out.response.toList := by
  have hb : b.response? = out.response := by rw [Beat.response?, h]
  rw [Beat.responses, List.filterMap_cons, hb]
  cases out.response <;> rfl

theorem Follows.beat {beats : List Beat} (h : Follows c beats e keys) (d : Drive)
    {o : Outcome Engine Duplicate Outputs}
    (hm : Move (e.behind d.gates) d.lines o.state o.result) :
    ∃ keys', Follows c (beats ++ [e.beat d o]) o.state keys' := by
  obtain rfl := h.config_eq
  have ha := h.accounted.behind d.gates
  have hs := h.sound.behind d.gates
  have hr := h.represents.behind d.gates
  have hf := hs.toPlaced.fault?_eq_none ha.toBuilt
  have hout := hm.result_eq hf
  obtain ⟨keys', ha', hkeys⟩ := hm.accounted ha
  rw [hf] at hkeys
  have hacc : Beat.accepted (beats ++ [e.beat d o]) =
      Beat.accepted beats ++ ((e.behind d.gates).accepted? d.lines).toList := by
    rw [Beat.accepted_append]
    exact congrArg _ (accepted_singleton (b := e.beat d o) hout)
  have hresp : Beat.responses (beats ++ [e.beat d o]) =
      Beat.responses beats ++ ((e.behind d.gates).outputs d.lines).response.toList := by
    rw [Beat.responses_append]
    exact congrArg _ (responses_singleton (b := e.beat d o) hout)
  have hstore : Store.after e.config .empty (Beat.accepted (beats ++ [e.beat d o])) =
      (e.behind d.gates).nextStore d.lines
        (Store.after e.config .empty (Beat.accepted beats)) := by
    rw [hacc, Store.after_append, Store.after_toList]
    rfl
  -- The lookup asked now is expected what the map holds now: nothing changes it until its answer.
  have hawaited : e.awaited keys ++ _ = _ := hm.awaited_append ha hf ha' hkeys
  refine ⟨keys', hm.config_eq, ha', hm.sound ha hs, ?_, ?_, fun b hmem => ?_⟩
  · rw [hstore]
    exact hm.represents ha hs hr
  · rw [hstore, hm.awaited_answers hf, hacc, hresp, Store.expected_append, h.answers,
      Store.expected_toList, List.map_append, answer_of_delivers ha.toBuilt hs.toPlaced hr,
      List.append_assoc, List.append_assoc, ← List.map_append, ← List.map_append, ← hawaited]
    rfl
  · rcases List.mem_append.1 hmem with hmem | hmem
    · exact h.ok b hmem
    · rw [List.mem_singleton.1 hmem]
      exact ⟨_, hout⟩

theorem follows_of_invalid (ha : e.Accounted []) (hrest : e.atRest = true)
    (h : ∀ t i, (e.slotAt t i).valid = false) : Follows e.config [] e [] where
  config_eq := rfl
  accounted := ha
  sound := by
    apply (placed_of_invalid h).sound
    simp [Updating, (atRest_eq_true.1 hrest).1]
  represents := by
    apply represents_idle (atRest_eq_true.1 hrest).1
    intro key data
    constructor
    · intro hdata
      cases hdata
    · rintro ⟨t, hf, -⟩
      rw [found_readAt, h] at hf
      cases hf.1
  answers := by
    rw [ha.awaited_of_count (atRest_eq_true.1 hrest).2.1]
    rfl
  ok := by simp

theorem Follows.runsTo (h : Follows c [] e keys) (hzero : e.rounds = 0) {ds : List Drive}
    (hs : e.Sighted ds) : e.RunsTo ds fun beats e' => ∃ keys, Follows c beats e' keys := by
  apply hs.runsTo hzero
  · exact ⟨keys, h⟩
  · rintro beats e' ⟨keys, h⟩
    exact ⟨keys, h.accounted⟩
  · rintro beats e' d o ⟨keys, h⟩ hm
    exact h.beat d hm

variable {hash : Nat → Key → Word} {depth : Nat → Nat}

theorem follows_empty (hc : c.validate = .ok ()) :
    Follows c [] (start c (emptyLanes c hash depth)) [] := by
  apply follows_of_invalid (accounted_empty hc) rfl
  intro t i
  rw [slotAt_empty]

theorem runsTo_follows (hc : c.validate = .ok ()) {ds : List Drive}
    (hs : (start c (emptyLanes c hash depth)).Sighted ds) :
    (start c (emptyLanes c hash depth)).RunsTo ds fun beats e' => ∃ keys, Follows c beats e' keys :=
  (follows_empty hc).runsTo rfl hs

theorem follows_of_run (h : ofLanes c (emptyLanes c hash depth) = .ok e) {ls : List Lines}
    {beats : List Beat} (hrun : e.run (ls.map .ofLines) = .ok (beats, e')) :
    ∃ keys, Follows c beats e' keys := by
  obtain ⟨hvalid, -, -, rfl⟩ := ofLanes_eq_ok h
  have hstart : (start c (emptyLanes c hash depth)).Accounted [] := accounted_empty hvalid.validate
  exact (runsTo_follows hvalid.validate (hstart.sighted rfl (visible_ofLines ls))).ok hrun

/-- Whatever is on the request lines, an engine over empty banks acts as a map that every request
changes, or is looked up in, at its acceptance: no cycle fails, the lookups are answered in order,
and between operations the entries are those of the map. -/
theorem refines_store (hc : c.validate = .ok ()) (hash : Nat → Key → Word) (depth : Nat → Nat)
    (ls : List Lines) :
    ∃ e, ofLanes c (emptyLanes c hash depth) = .ok e ∧
      e.RunsTo (ls.map .ofLines) fun beats e' =>
        (∀ b ∈ beats, ∃ out, b.result = .ok out) ∧
        (Beat.responses beats).map Response.answer <+:
          Store.expected c .empty (Beat.accepted beats) ∧
        (e'.phase = .idle → (e'.entries.map (·.key)).Nodup ∧
          ∀ key data, (key, data) ∈ e'.entries.map (fun x => (x.key, x.data)) ↔
            Store.after c .empty (Beat.accepted beats) key = some data) := by
  have ha : (start c (emptyLanes c hash depth)).Accounted [] := accounted_empty hc
  refine ⟨_, ofLanes_emptyLanes hc, ?_⟩
  apply (runsTo_follows hc (ha.sighted rfl (visible_ofLines ls))).mono
  rintro beats e' - ⟨keys, h⟩
  refine ⟨h.ok, ?_, fun hp => ⟨h.sound.toPlaced.nodup_keys, fun key data => ?_⟩⟩
  · rw [h.answers]
    exact List.prefix_append _ _
  · rw [h.sound.toPlaced.mem_pairs, h.represents.idle hp]

/-- Both keys share their slot with the key 5. The lookups overtake nothing, though their answers
are held back for a while. -/
theorem refines_store_crowded :
    ∃ e beats e', ofLanes smallConfig (emptyLanes smallConfig (fun _ => id) fun _ => 1) = .ok e ∧
      e.run ([{ insert := some (1, 10) }, {}, {}, {}, { insert := some (3, 30) }, {}, {}, {},
          { lookup := some 3 }, { lookup := some 5, resultReady := false }, {}, {}, {}].map
            .ofLines) = .ok (beats, e') ∧
      Beat.accepted beats = [.insert 1 10, .insert 3 30, .lookup 3, .lookup 5] ∧
      (Beat.responses beats).map Response.answer = [(3, true, some 30), (5, false, none)] ∧
      (Beat.responses beats).map Response.answer <+:
        Store.expected smallConfig .empty (Beat.accepted beats) ∧
      (∀ b ∈ beats, ∃ out, b.result = .ok out) ∧
      (e'.entries.map (·.key)).Nodup ∧
      ∀ key data, (key, data) ∈ e'.entries.map (fun x => (x.key, x.data)) ↔
        Store.after smallConfig .empty [.insert 1 10, .insert 3 30, .lookup 3, .lookup 5] key =
          some data := by
  obtain ⟨e, he, hruns⟩ := refines_store (c := smallConfig) rfl (fun _ => id) (fun _ => 1)
    [{ insert := some (1, 10) }, {}, {}, {}, { insert := some (3, 30) }, {}, {}, {},
      { lookup := some 3 }, { lookup := some 5, resultReady := false }, {}, {}, {}]
  cases he
  obtain ⟨beats, e', hrun, haccepted, hanswers, hidle⟩ : ∃ beats e',
      (start smallConfig (emptyLanes smallConfig (fun _ => id) fun _ => 1)).run
        ([{ insert := some (1, 10) }, {}, {}, {}, { insert := some (3, 30) }, {}, {}, {},
          { lookup := some 3 }, { lookup := some 5, resultReady := false }, {}, {}, {}].map
            .ofLines) = .ok (beats, e') ∧
      Beat.accepted beats = [.insert 1 10, .insert 3 30, .lookup 3, .lookup 5] ∧
      (Beat.responses beats).map Response.answer = [(3, true, some 30), (5, false, none)] ∧
      e'.phase = .idle :=
    ⟨_, _, rfl, rfl, rfl, rfl⟩
  obtain ⟨hok, hprefix, hentries⟩ := hruns.ok hrun
  obtain ⟨hnodup, hstore⟩ := hentries hidle
  rw [haccepted] at hstore
  exact ⟨_, beats, e', rfl, hrun, haccepted, hanswers, hprefix, hok, hnodup, hstore⟩

end Engine
end ClockedCuckoo
