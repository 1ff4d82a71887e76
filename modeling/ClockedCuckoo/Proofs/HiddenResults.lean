import Mathlib.Data.List.Induction
import ClockedCuckoo.Proofs.Lookups

/-! Results that are hidden for a while. A delete that found nothing does not wait for its results to
show again, so they stay behind; every other round does, and then no result outlives its round. -/

namespace ClockedCuckoo

namespace Engine

variable {c : Config} {e e' : Engine} {keys : List Key} {lines : Lines}

/-- The answers so far are those expected, and no queue holds more than lookups under way. -/
structure Fresh (c : Config) (beats : List Beat) (e : Engine) : Prop where
  answers : (Beat.responses beats).map Response.answer <+:
    Store.expected c .empty (Beat.accepted beats)
  idle : e.phase = .idle → ∀ l ∈ e.lanes,
    l.bank.results.length + e.staging.holdsLookup.toNat = e.inFlight.count
  empty : e.phase = .probing ∨ e.phase = .cleaning → ∀ l ∈ e.lanes, l.bank.results = []

theorem Follows.fresh {beats : List Beat} (h : Follows c beats e keys) : Fresh c beats e where
  answers := by
    rw [h.answers]
    exact List.prefix_append _ _
  idle hp l hl := by
    rw [(h.accounted.answers l hl).results_eq, List.length_map]
    exact h.accounted.idle hp
  empty hp l hl := by
    rw [(h.accounted.answers l hl).results_eq, h.accounted.quiet hp.symm]
    rfl

section Blind

theorem writes_of_hidden (hr : e.results? = none) (hp : e.phase = .writing) :
    e.writes = e.lanes.map fun _ => none := by
  rw [writes, hp, hr]

/-- The only round that ends blindly is that of a delete that found nothing. -/
theorem Accounted.endsBlind_iff (h : e.Accounted keys) : e.endsBlind = true ↔
    e.phase = .writing ∧ e.staging.origin = .delete ∧ e.choice.found = false ∧
      e.results? = none := by
  rw [endsBlind, roundDone, Bool.and_eq_true, Bool.and_eq_true, beq_iff_eq,
    Option.isNone_iff_eq_none]
  constructor
  · rintro ⟨⟨hp, hd⟩, hr⟩
    have ho := (h.busy (by simp [hp])).2
    have hn : e.writeNeeded = false := by
      cases hn : e.writeNeeded with
      | false => rfl
      | true =>
        have ht : e.writeTaken = true := by simpa [writeDone, hn] using hd
        obtain ⟨-, ps, hps⟩ := results?_of_writeTaken hp ht
        rw [hr] at hps
        cases hps
    obtain ⟨hdel, hfound⟩ := origin_of_not_needed hp ho hn
    exact ⟨hp, hdel, hfound, hr⟩
  · rintro ⟨hp, hdel, hfound, hr⟩
    refine ⟨⟨hp, ?_⟩, hr⟩
    have hn : e.writeNeeded = false := by rw [writeNeeded, hp, hdel, hfound]
    rw [writeDone, hn]
    rfl

theorem Accounted.advance_of_endsBlind (h : e.Accounted keys) (lines : Lines)
    (hb : e.endsBlind = true) :
    (e.advance lines).phase = .idle ∧ (e.advance lines).lanes = e.lanes ∧
      (e.advance lines).inFlight = e.inFlight := by
  obtain ⟨hp, hdel, hfound, hr⟩ := h.endsBlind_iff.1 hb
  have hn : e.writeNeeded = false := by rw [writeNeeded, hp, hdel, hfound]
  have hd : e.writeDone = true := by rw [writeDone, hn]; rfl
  have hlanes : e.nextLanes lines = e.lanes := by
    have hc : e.consumes lines = false := by rw [consumes, hr]; rfl
    rw [nextLanes_of_no_write (writes_of_hidden hr hp), hc,
      probeTaken_of_ne (by simp [hp]) (by simp [hp])]
    exact List.map_id _
  rw [advance_of_writing hp]
  refine ⟨?_, hlanes, rfl⟩
  simp [hd, hdel]

theorem Accounted.not_fresh_of_endsBlind (h : e.Accounted keys) (hb : e.endsBlind = true)
    (beats : List Beat) : ¬Fresh c beats (e.advance lines) := by
  intro hfresh
  obtain ⟨hphase, hlanes, hcount⟩ := h.advance_of_endsBlind lines hb
  have hp := (h.endsBlind_iff.1 hb).1
  obtain ⟨l, hl⟩ := List.exists_mem_of_ne_nil _ h.lanes_ne_nil
  have hidle := hfresh.idle hphase l (hlanes ▸ hl)
  rw [(h.answers l hl).results_eq, h.updating (.inr hp), hcount, (h.busy (by simp [hp])).1]
    at hidle
  simp at hidle

end Blind

section Sighted

theorem Sighted.nil : e.Sighted [] := by
  intro pre d post hds
  simp at hds

theorem Sighted.cons {d : Drive} {ds : List Drive} {o : Outcome Engine Duplicate Outputs}
    (ht : e.tick d = .ok o) (hb : (e.behind d.gates).endsBlind = false)
    (h : o.state.Sighted ds) : e.Sighted (d :: ds) := by
  intro pre d' post hds beats e' hrun o' ho'
  cases pre with
  | nil =>
    cases hds
    cases hrun
    exact hb
  | cons a pre =>
    cases hds
    obtain ⟨o₁, beats₁, ht₁, hrun₁, -⟩ := run_cons_eq_ok hrun
    cases ht.symm.trans ht₁
    exact h pre d' post rfl beats₁ e' hrun₁ o' ho'

theorem Sighted.of_append {ds ds' : List Drive} (h : e.Sighted (ds ++ ds')) : e.Sighted ds := by
  intro pre d post hds
  exact h pre d (post ++ ds') (by rw [hds, List.append_assoc, List.cons_append])

theorem Sighted.snoc {ds : List Drive} {d : Drive} (h : e.Sighted ds)
    (hlast : ∀ beats e', e.run ds = .ok (beats, e') → ∀ o, e'.tick d = .ok o →
      (e'.behind d.gates).endsBlind = false) : e.Sighted (ds ++ [d]) := by
  intro pre d' post hds
  -- The cycle that splits the schedule is the last one, or one of those before.
  rcases List.append_eq_append_iff.1 hds with ⟨as, rfl, has⟩ | ⟨as, rfl, has⟩
  · cases as with
    | nil =>
      cases has
      rw [List.append_nil]
      exact hlast
    | cons a as => simp at has
  · cases as with
    | nil =>
      cases has
      rw [List.append_nil] at hlast
      exact hlast
    | cons a as =>
      cases has
      exact h pre d' as rfl

end Sighted

variable {hash : Nat → Key → Word} {depth : Nat → Nat}

theorem runsTo_fresh (hc : c.validate = .ok ()) {ds : List Drive}
    (hs : (start c (emptyLanes c hash depth)).Sighted ds) :
    (start c (emptyLanes c hash depth)).RunsTo ds (Fresh c) := by
  apply (runsTo_follows hc hs).mono
  rintro beats e' - ⟨keys, h⟩
  exact h.fresh

/-- Whatever is hidden when, from empty banks results are used in their own rounds and lookups are
answered in order, up to the first delete that misses while its results are hidden. -/
theorem fresh_iff_sighted (hc : c.validate = .ok ()) (hash : Nat → Key → Word)
    (depth : Nat → Nat) (ds : List Drive) :
    ∃ e, ofLanes c (emptyLanes c hash depth) = .ok e ∧
      ((∀ pre, pre <+: ds → e.RunsTo pre (Fresh c)) ↔ e.Sighted ds) := by
  refine ⟨_, ofLanes_emptyLanes hc, ?_, ?_⟩
  · intro h
    induction ds using List.reverseRecOn with
    | nil => exact .nil
    | append_singleton ds d ih =>
      -- The last cycle comes after a sighted run, so its state is known well enough to be refuted.
      have hs := ih fun pre hpre => h pre (hpre.trans (List.prefix_append _ _))
      apply hs.snoc
      intro beats e' hrun o ho
      rw [Bool.eq_false_iff]
      intro hb
      obtain ⟨keys, hk⟩ := (runsTo_follows hc hs).ok hrun
      have ha := hk.accounted.behind d.gates
      have hp := (ha.endsBlind_iff.1 hb).1
      have hstate := state_of_cycle (fault?_of_ne (by simp [hp]) (by simp [hp])) ho
      have hlast : (start c (emptyLanes c hash depth)).run (ds ++ [d]) =
          .ok (beats ++ [e'.beat d o], o.state) := by
        rw [run_snoc, hrun]
        dsimp only
        rw [ho]
      have hfresh := (h (ds ++ [d]) (List.prefix_refl _)).ok hlast
      rw [hstate] at hfresh
      exact ha.not_fresh_of_endsBlind hb _ hfresh
  · rintro h pre ⟨post, rfl⟩
    exact runsTo_fresh hc h.of_append

/-- A delete of a key that is not stored, with the result of bank 1 hidden when its round ends. -/
def hiddenMiss : List Drive :=
  [.ofLines { delete := some 5 }, .ofLines {}, .ofLines {},
    { lines := {}, gates := fun t => { visible := t == 0 } }, .ofLines {}]

/-- The same for a stored key. -/
def hiddenHit : List Drive :=
  [.ofLines { insert := some (5, 50) }, .ofLines {}, .ofLines {}, .ofLines {}] ++ hiddenMiss

/-- The delete that finds its key waits for the hidden result, and leaves nothing behind. -/
theorem fresh_iff_sighted_hiddenMiss :
    ∃ e, ofLanes smallConfig (emptyLanes smallConfig (fun _ => id) fun _ => 4) = .ok e ∧
      (¬e.Sighted hiddenMiss ∧ ¬∀ pre, pre <+: hiddenMiss → e.RunsTo pre (Fresh smallConfig)) ∧
      (e.Sighted hiddenHit ∧ ∀ pre, pre <+: hiddenHit → e.RunsTo pre (Fresh smallConfig)) ∧
      ∃ beats e', e.run hiddenHit = .ok (beats, e') ∧ e'.phase = .idle ∧ e'.entries = [] := by
  obtain ⟨e, he, hmiss⟩ := fresh_iff_sighted (c := smallConfig) rfl (fun _ => id) (fun _ => 4)
    hiddenMiss
  obtain ⟨e₁, he₁, hhit⟩ := fresh_iff_sighted (c := smallConfig) rfl (fun _ => id) (fun _ => 4)
    hiddenHit
  cases he
  cases he₁
  have hblind : ¬(start smallConfig (emptyLanes smallConfig (fun _ => id) fun _ => 4)).Sighted
      hiddenMiss := by
    intro hs
    have hends := hs (hiddenMiss.take 3) _ [.ofLines {}] rfl _ _ rfl _ rfl
    exact absurd hends (by decide)
  have hsighted : (start smallConfig (emptyLanes smallConfig (fun _ => id) fun _ => 4)).Sighted
      hiddenHit :=
    .cons rfl rfl <| .cons rfl rfl <| .cons rfl rfl <| .cons rfl rfl <| .cons rfl rfl <|
      .cons rfl rfl <| .cons rfl rfl <| .cons rfl rfl <| .cons rfl rfl .nil
  exact ⟨_, rfl, ⟨hblind, fun hfresh => hblind (hmiss.1 hfresh)⟩, ⟨hsighted, hhit.2 hsighted⟩,
    _, _, rfl, rfl, rfl⟩

/-- The result that stays behind is taken for that of a lookup, though none is in flight. -/
theorem run_hiddenMiss :
    ∃ e, ofLanes smallConfig (emptyLanes smallConfig (fun _ => id) fun _ => 4) = .ok e ∧
      e.run hiddenMiss = .error .nothingInFlight :=
  ⟨_, rfl, rfl⟩

end Engine
end ClockedCuckoo
