import ClockedCuckoo.Proofs.Batch

/-! A lookup called on a front end gets the answer to its own request. Its key may have been looked up
many times before: the request is the last one accepted, so that its response is the last one to come. -/

namespace ClockedCuckoo

theorem exists_of_forall₂_snoc {α β : Type} {r : α → β → Prop} {as : List α} {bs : List β} {b : β}
    (h : List.Forall₂ r as (bs ++ [b])) :
    ∃ as' a, as = as' ++ [a] ∧ List.Forall₂ r as' bs ∧ r a b := by
  obtain ⟨a, rest, hab, hrest, hlast⟩ :=
    List.forall₂_cons_right_iff.1 (List.forall₂_drop_append _ _ _ h)
  rw [List.forall₂_nil_right_iff.1 hrest] at hlast
  refine ⟨_, a, ?_, List.forall₂_take_append _ _ _ h, hab⟩
  rw [← hlast, List.take_append_drop]

namespace Beat

variable {c : Config} {beats : List Beat}

theorem map_snd_asked (h : ∀ b ∈ beats, b.start.config = c) :
    (asked beats).map Prod.snd = (accepted beats).filterMap (Request.lookup? c.keyMask) := by
  rw [asked, accepted, List.map_filterMap, List.filterMap_filterMap]
  apply List.filterMap_congr
  intro b hb
  rw [asked?, h b hb]
  cases b.accepted? with
  | none => rfl
  | some r => cases r <;> rfl

theorem map_snd_told (h : ∀ b ∈ beats, ∃ out, b.result = .ok out) :
    (told beats).map Prod.snd = (responses beats).map .answered := by
  rw [told, responses, List.map_filterMap, List.map_filterMap]
  apply List.filterMap_congr
  intro b hb
  obtain ⟨out, hout⟩ := h b hb
  rw [told?, response?, hout]
  exact Option.map_map ..

end Beat

namespace Engine

variable {e e' : Engine} {keys keys' : List Key} {before beats : List Beat} {key : Key}

theorem key_of_verdict {r : Response} (h : e.verdict key = .answered r) : r.key = key := by
  rw [verdict] at h
  split at h
  · cases h
    rfl
  · cases h
    rfl
  · cases h

/-- Every lookup of the beats has come to its outcome, and the last one, a lookup of `key`, came to
`last`. -/
def EndsIn (beats : List Beat) (key : Key) (last : Verdict) : Prop :=
  ∃ asked told met left, Beat.asked beats = asked ++ [(met, key)] ∧
    Beat.told beats = told ++ [(left, last)] ∧ List.Forall₂ Settled asked told ∧
    Settled (met, key) (left, last)

theorem EndsIn.key_eq {r : Response} (h : EndsIn beats key (.answered r)) : r.key = key := by
  obtain ⟨asked, told, met, left, -, -, -, -, hverdict⟩ := h
  exact key_of_verdict hverdict.symm

/-- No more outcomes are told before some beats than lookups are asked, so if these ask for a lookup and
leave none in flight, they tell an outcome. -/
theorem Settles.told_ne_nil (h : Settles before e keys) (h' : Settles (before ++ beats) e' keys')
    (hcount : e'.inFlight.count = 0) (hasked : Beat.asked beats ≠ []) : Beat.told beats ≠ [] := by
  have hbefore := h.length_asked
  have hall := h'.length_asked
  have hlt := List.length_pos_iff.2 hasked
  rw [Beat.asked_append, Beat.told_append, List.length_append, List.length_append] at hall
  apply List.ne_nil_of_length_pos
  omega

theorem Settles.endsIn (h : Settles before e keys) (h' : Settles (before ++ beats) e' keys')
    (hcount : e'.inFlight.count = 0) (hok : ∀ b ∈ beats, ∃ out, b.result = .ok out)
    {earlier : List Key} (hasked : (Beat.asked beats).map Prod.snd = earlier ++ [key]) :
    ∃ others r, Beat.responses beats = others ++ [r] ∧
      EndsIn (before ++ beats) key (.answered r) := by
  have hne : Beat.asked beats ≠ [] := by
    intro hnil
    simp [hnil] at hasked
  obtain ⟨told, ⟨left, last⟩, htold⟩ :=
    (List.eq_nil_or_concat' _).resolve_left (h.told_ne_nil h' hcount hne)
  obtain ⟨others, rest, hresponses, -, hrest⟩ : ∃ others rest, Beat.responses beats =
      others ++ rest ∧ others.map Verdict.answered = told.map Prod.snd ∧
        rest.map .answered = [last] := by
    apply List.map_eq_append_iff.1
    rw [← Beat.map_snd_told hok, htold, List.map_append]
    rfl
  obtain ⟨r, rfl, rfl⟩ := List.map_eq_singleton_iff.1 hrest
  have hsettled := h'.forall₂_of_count hcount
  rw [Beat.told_append, htold, ← List.append_assoc] at hsettled
  obtain ⟨asked, ⟨met, own⟩, hlast, hasked', hown⟩ := exists_of_forall₂_snoc hsettled
  have hkey : (Beat.asked before).map Prod.snd ++ earlier ++ [key] = asked.map Prod.snd ++ [own] := by
    rw [List.append_assoc, ← hasked, ← List.map_append, ← Beat.asked_append, hlast, List.map_append]
    rfl
  obtain ⟨-, rfl⟩ := List.append_singleton_inj.1 hkey
  refine ⟨others, r, hresponses, asked, _, met, left, hlast, ?_, hasked', hown⟩
  rw [Beat.told_append, htold, ← List.append_assoc]

end Engine

namespace Frontend

variable {c : Config} {lanes : List Lane} {e : Engine} {f g : Frontend} {before : List Beat}
  {key : Key} {budget n : Nat}

/-- The call ended with the answer to its own lookup. The lookup waited behind those before it and was
the last one accepted, `resp` is its outcome, and all other responses that came meanwhile are kept. -/
structure Answers (c : Config) (before : List Beat) (f : Frontend) (key : Key) (resp : Response)
    (f' : Frontend) : Prop where
  key_eq : resp.key = key &&& c.keyMask
  own : ∃ n beats g others, (f.push (.lookup key)).play (List.replicate n .step) = .ok (beats, g) ∧
    Request.ofKind .lookup (Beat.accepted beats) = f.waiting .lookup ++ [.lookup key] ∧
    Engine.EndsIn (before ++ beats) (key &&& c.keyMask) (.answered resp) ∧
    Beat.responses beats = others ++ [resp] ∧
    f' = { g with responses := f.responses ++ others }

theorem ofKind_accepted_of_play {beats : List Beat} (hrest : g.atRest = true)
    (h : (f.push (.lookup key)).play (List.replicate n .step) = .ok (beats, g)) :
    Request.ofKind .lookup (Beat.accepted beats) = f.waiting .lookup ++ [.lookup key] := by
  have hport := waiting_play h .lookup
  have hpushed : Action.pushed (List.replicate n .step) = [] :=
    List.filterMap_eq_nil_iff.2 fun a ha => by rw [List.eq_of_mem_replicate ha]
  rw [hpushed, waiting_of_atRest hrest, List.append_nil, waiting_push] at hport
  exact hport.symm.trans (List.append_nil _)

theorem endsIn_of_play (h : Engine.ofLanes c lanes = .ok e)
    (hready : ∀ l ∈ lanes, l.bank.hasher.IsTotal ∧ 0 < l.bank.depth ∧ l.bank.results = [])
    (hopen : f.engine.Open) {ls : List Lines}
    (hrun : e.run (ls.map .ofLines) = .ok (before, f.engine)) {beats : List Beat}
    (hplay : (f.push (.lookup key)).play (List.replicate n .step) = .ok (beats, g))
    (hrest : g.atRest = true) (hok : ∀ b ∈ beats, ∃ out, b.result = .ok out) :
    ∃ others resp, Beat.responses beats = others ++ [resp] ∧
      Engine.EndsIn (before ++ beats) (key &&& c.keyMask) (.answered resp) := by
  have hstart := Engine.accounted_start h hready
  obtain ⟨-, -, -, rfl⟩ := Engine.ofLanes_eq_ok h
  have hrun' := (run_of_play (f := f.push (.lookup key)) hopen hplay).1
  have hall : (Engine.start c lanes).run ((ls ++ beats.map (·.lines)).map .ofLines) =
      .ok (before ++ beats, g.engine) := by
    rw [List.map_append]
    exact Engine.run_append_of_ok hrun hrun'
  obtain ⟨keys, hs⟩ := (Engine.runsTo_settles hstart rfl rfl (visible_ofLines ls)).ok hrun
  obtain ⟨keys', hs'⟩ := (Engine.runsTo_settles hstart rfl rfl (visible_ofLines _)).ok hall
  have hconfig : ∀ b ∈ beats, b.start.config = c := by
    intro b hb
    exact (Engine.config_of_mem_run hrun' hb).trans (Engine.config_of_run hrun)
  have hasked : (Beat.asked beats).map Prod.snd =
      (f.waiting .lookup).filterMap (Request.lookup? c.keyMask) ++ [key &&& c.keyMask] := by
    rw [Beat.map_snd_asked hconfig, ← Request.filterMap_lookup?_ofKind,
      ofKind_accepted_of_play hrest hplay, List.filterMap_append]
    rfl
  exact hs.endsIn hs' (engine_of_atRest hrest).2.1 hok hasked

theorem answers_of_perform (h : Engine.ofLanes c lanes = .ok e)
    (hready : ∀ l ∈ lanes, l.bank.hasher.IsTotal ∧ 0 < l.bank.depth ∧ l.bank.results = [])
    (hopen : f.engine.Open) {ls : List Lines}
    (hrun : e.run (ls.map .ofLines) = .ok (before, f.engine)) {p : Outcome Frontend Error Unit}
    (hp : f.perform (.lookup key) budget = .ok p) (hok : p.result = .ok ()) :
    ∃ o resp, f.lookup key budget = .ok o ∧ o.result = .ok resp ∧
      Answers c before f key resp o.state := by
  obtain ⟨o', ho', hstate, hn⟩ := perform_eq_ok hp
  obtain ⟨n, -, beats, hplay, hwell⟩ := play_of_run ho'
  obtain ⟨n', hn'⟩ := hn hok
  obtain ⟨-, hrest, hbeats⟩ := hwell n' hn'
  rw [← hstate] at hplay hrest
  obtain ⟨others, resp, hresponses, hends⟩ :=
    endsIn_of_play h hready hopen hrun hplay hrest hbeats
  have hc : f.engine.config = c := by
    rw [Engine.config_of_run hrun]
    obtain ⟨-, -, -, rfl⟩ := Engine.ofLanes_eq_ok h
    rfl
  have hcome : p.state.responses = f.responses ++ (others ++ [resp]) := by
    rw [responses_play hplay, hresponses]
    rfl
  exact ⟨_, resp, lookup_eq_ok hp hok others hcome (hc ▸ hends.key_eq), rfl, hends.key_eq,
    n, beats, p.state, others, hplay, ofKind_accepted_of_play hrest hplay, hends, hresponses, rfl⟩

/-- A lookup called on a front end returns the answer to the request that it pushed, not one to another
request for the same key, and keeps the responses to all others. Once the run that it makes ends well it
never misses its response. -/
theorem lookup_returns_own_answer (h : Engine.ofLanes c lanes = .ok e)
    (hready : ∀ l ∈ lanes, l.bank.hasher.IsTotal ∧ 0 < l.bank.depth ∧ l.bank.results = [])
    (hgates : ∀ l ∈ lanes, l.gate = {}) (hr : (ofEngine e).Reaches f)
    {o : Outcome Frontend Error Response} (ho : f.lookup key budget = .ok o) :
    e.Reaches f.engine ∧ ∃ p, f.perform (.lookup key) budget = .ok p ∧
      (p.result = .ok () → ∃ resp, o.result = .ok resp) ∧
      ∀ resp, o.result = .ok resp → ∀ (ls : List Lines) before,
        e.run (ls.map .ofLines) = .ok (before, f.engine) →
          Answers c before f key resp o.state := by
  have hstart : (ofEngine e).engine.Open := by
    obtain ⟨-, -, -, rfl⟩ := Engine.ofLanes_eq_ok h
    exact hgates
  obtain ⟨hreach, hopen⟩ := hr.engine hstart
  obtain ⟨p, _, hp, -, hwell⟩ := perform_of_lookup ho
  refine ⟨hreach, p, hp, fun hok => ?_, fun resp hresp ls before hrun => ?_⟩
  · obtain ⟨ls, before, hrun⟩ := hreach
    obtain ⟨o', resp, ho', hresp, -⟩ := answers_of_perform h hready hopen hrun hp hok
    cases ho.symm.trans ho'
    exact ⟨resp, hresp⟩
  · obtain ⟨o', resp', ho', hresp', hanswers⟩ :=
      answers_of_perform h hready hopen hrun hp (hwell resp hresp)
    cases ho.symm.trans ho'
    cases hresp.symm.trans hresp'
    exact hanswers

/-- A lookup of 4 has timed out with its response held back, and an insert of 4 is queued since. The
call for 260, which is 4 under the mask, gets what the insert left, and the old response stays. -/
theorem lookup_returns_own_answer_clash :
    ∃ f o before, (ofEngine (.start Engine.smallConfig Engine.clashingLanes)).Reaches f ∧
      f.engine.inFlight.count = 1 ∧ f.lookup 260 30 = .ok o ∧
      o.result = .ok ⟨4, some ⟨0, 40⟩, 0⟩ ∧ o.state.responses = [⟨4, none, 0⟩] ∧
      Answers Engine.smallConfig before f 260 ⟨4, some ⟨0, 40⟩, 0⟩ o.state := by
  obtain ⟨o₀, ho₀, hcount, hnext⟩ := exists_of_toOption_any
    (x := ((ofEngine (.start Engine.smallConfig Engine.clashingLanes)).setReady false).lookup 4 3)
    (p := fun o₀ => o₀.state.engine.inFlight.count = 1 ∧
      (((o₀.state.setReady true).push (.insert 4 40)).lookup 260 30).toOption.any fun o =>
        o.result = .ok ⟨4, some ⟨0, 40⟩, 0⟩ ∧ o.state.responses = [⟨4, none, 0⟩])
    (by decide +kernel)
  obtain ⟨o, ho, hresp, hleft⟩ := exists_of_toOption_any hnext
  have hr : (ofEngine (.start Engine.smallConfig Engine.clashingLanes)).Reaches
      ((o₀.state.setReady true).push (.insert 4 40)) :=
    .push _ (.setReady _ (.lookup (.setReady _ .refl) ho₀))
  obtain ⟨⟨ls, before, hrun⟩, p, -, -, hanswers⟩ := lookup_returns_own_answer
    Engine.ofLanes_clashingLanes Engine.ready_clashingLanes Engine.gate_clashingLanes hr ho
  exact ⟨_, o, before, hr, hcount, ho, hresp, hleft, hanswers _ hresp ls before hrun⟩

end Frontend
end ClockedCuckoo
