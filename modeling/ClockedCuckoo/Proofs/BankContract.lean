import Mathlib.Data.List.Infix
import ClockedCuckoo.Proofs.SlotView

/-! The contract of a bank. Whatever it is told to do, its slots are what was last written to them, and
its queue hands out one answer for each probe, in order, from the slots as the probe met them. -/

namespace ClockedCuckoo

namespace Command

def lastWrite? (cs : List Command) (i : Nat) : Option SlotWrite :=
  (cs.filterMap (·.write)).reverse.find? (·.index == i)

def slotAfter (cs : List Command) (i : Nat) : Slot :=
  ((lastWrite? cs i).map (·.slot)).getD {}

def answer (hash : Key → Word) (slots : Nat) (cs : List Command) (key : Key) : Probe :=
  let i := Hash.slotIndex (hash key) slots
  { key := key, index := i, found := (slotAfter cs i).holds key, slot := slotAfter cs i }

def answers (hash : Key → Word) (slots : Nat) (cs : List Command) : List Probe :=
  cs.inits.filterMap fun done => (done.getLast?.bind (·.probe)).map (answer hash slots done)

/-- How many results are queued after a command that meets `n` of them. -/
def level (n : Nat) (c : Command) : Nat :=
  n - c.consume.toNat + c.probe.isSome.toNat

def queued (cs : List Command) : Nat :=
  cs.foldl level 0

/-- Each probe finds room in a queue of the given depth, once its command has taken a result off; `n`
results are queued at first. -/
def Fits (depth : Nat) : Nat → List Command → Prop
  | _, [] => True
  | n, c :: cs =>
    (c.probe.isSome = true → n - c.consume.toNat < depth) ∧ Fits depth (level n c) cs

variable {cs : List Command} {c : Command} {hash : Key → Word} {slots : Nat}

theorem lastWrite?_snoc (cs : List Command) (c : Command) (i : Nat) :
    lastWrite? (cs ++ [c]) i = (c.write.filter (·.index == i)).or (lastWrite? cs i) := by
  unfold lastWrite?
  rw [List.filterMap_append, List.reverse_append, List.find?_append]
  cases hw : c.write with
  | none => simp [hw]
  | some w => cases hi : w.index == i <;> simp [hw, hi, Option.filter_some]

theorem slotAfter_snoc (cs : List Command) (c : Command) (i : Nat) :
    slotAfter (cs ++ [c]) i = match c.write with
      | some w => if i = w.index then w.slot else slotAfter cs i
      | none => slotAfter cs i := by
  unfold slotAfter
  rw [lastWrite?_snoc]
  cases c.write with
  | none => simp
  | some w =>
    by_cases hi : i = w.index
    · simp [hi, Option.filter_some]
    · simp [hi, Ne.symm hi, Option.filter_some]

theorem answers_snoc (cs : List Command) (c : Command) :
    answers hash slots (cs ++ [c]) =
      answers hash slots cs ++ (c.probe.map (answer hash slots (cs ++ [c]))).toList := by
  have hinits : (cs ++ [c]).inits = cs.inits ++ [cs ++ [c]] := by
    rw [List.inits_append]
    rfl
  unfold answers
  rw [hinits, List.filterMap_append]
  cases hp : c.probe <;> simp [hp]

theorem level_le {n depth : Nat} (hn : n ≤ depth)
    (hroom : c.probe.isSome = true → n - c.consume.toNat < depth) : level n c ≤ depth := by
  unfold level
  cases hp : c.probe with
  | none => exact Nat.le_trans (Nat.sub_le ..) hn
  | some key => exact hroom (by rw [hp]; rfl)

theorem queued_snoc (cs : List Command) (c : Command) :
    queued (cs ++ [c]) = level (queued cs) c := by
  rw [queued, List.foldl_append]
  rfl

end Command

namespace Bank

def commit (b : Bank) (c : Command) : Checked Bank :=
  guarded (b.cycleViolation? c) (b.cycle c)

def serve (b : Bank) : List Command → Checked (List Probe × Bank)
  | [] => .ok ([], b)
  | c :: cs =>
    match b.commit c with
    | .error v => .error v
    | .ok b' =>
      match b'.serve cs with
      | .error v => .error v
      | .ok (taken, b'') => .ok ((if c.consume then b.oldest?.toList else []) ++ taken, b'')

structure Served (hash : Key → Word) (slots depth : Nat) (cs : List Command)
    (taken : List Probe) (b : Bank) : Prop where
  size_eq : b.size = slots
  hasher_eq : b.hasher = .ofFunction hash
  depth_eq : b.depth = depth
  slotAt_eq : ∀ i < slots, b.slotAt i = Command.slotAfter cs i
  answers_eq : taken ++ b.results = Command.answers hash slots cs
  length_eq : b.results.length = Command.queued cs
  length_le : b.results.length ≤ depth

variable {b : Bank} {c : Command} {cs done : List Command} {hash : Key → Word}
  {slots depth i : Nat} {taken : List Probe}

theorem served_empty (hash : Key → Word) (slots depth : Nat) :
    Served hash slots (max depth 1) [] [] (empty slots (.ofFunction hash) depth) where
  size_eq := size_empty ..
  hasher_eq := rfl
  depth_eq := rfl
  slotAt_eq _ _ := slotAt_empty ..
  answers_eq := rfl
  length_eq := rfl
  length_le := Nat.zero_le _

theorem write_of_size_le {w : SlotWrite} (h : b.size ≤ w.index) : b.write w = b := by
  unfold write
  rw [Array.setIfInBounds_eq_of_size_le h]

theorem commit_of_size_le {w : SlotWrite} (h : b.size ≤ w.index) (c : Command) :
    b.commit { c with write := some w } = b.commit { c with write := none } := by
  have hwrite : ∀ b' : Bank, b'.size = b.size → b'.write w = b' := fun b' hsize =>
    write_of_size_le (hsize.symm ▸ h)
  unfold commit cycle
  cases c.consume with
  | false =>
    simp only [Bool.false_eq_true, if_false, hwrite b rfl]
    rfl
  | true =>
    simp only [if_true, hwrite b.consume rfl]
    rfl

theorem commit_of_results_nil (h : b.results = []) (c : Command) :
    b.commit { c with consume := true } = b.commit { c with consume := false } := by
  have hconsume : b.consume = b := by
    obtain ⟨_, _, _, results⟩ := b
    cases h
    rfl
  unfold commit cycle cycleViolation?
  simp only [Bool.false_eq_true, if_true, if_false, hconsume]

theorem slotAt_cycle (hi : i < b.size) (c : Command) :
    (b.cycle c).slotAt i = match c.write with
      | some w => if i = w.index then w.slot else b.slotAt i
      | none => b.slotAt i := by
  cases hw : c.write with
  | none => exact slotAt_cycle_of_no_write hw i
  | some w =>
    by_cases hlt : w.index < b.size
    · exact slotAt_cycle_of_write hw hlt i
    · have hslots : (b.cycle c).slots = b.slots := by
        rw [slots_cycle, hw]
        exact congrArg slots (write_of_size_le (Nat.le_of_not_lt hlt))
      have hne : i ≠ w.index := fun h => hlt (h ▸ hi)
      dsimp only
      rw [if_neg hne, slotAt, hslots, slotAt]

theorem cycleViolation?_eq_none (hslots : 0 < b.size) (hhash : b.hasher.IsTotal)
    (hroom : c.probe.isSome = true → b.results.length - c.consume.toNat < b.depth) :
    b.cycleViolation? c = none := by
  have hhome : ∀ b' : Bank, b'.hasher = b.hasher → b'.size = b.size → ∀ key,
      b'.homeViolation? key = none := by
    intro b' hh hs key
    rw [homeViolation?, hh, hhash key, hs, Hash.slotIndexViolation?, Option.none_or,
      Violation.when_eq_none]
    exact beq_false_of_ne (Nat.ne_of_gt hslots)
  unfold cycleViolation?
  cases hp : c.probe with
  | none => rfl
  | some key =>
    have hlt := hroom (by rw [hp]; rfl)
    cases hc : c.consume with
    | false =>
      rw [hc] at hlt
      have hfull : b.hasRoom = true := decide_eq_true hlt
      simp [hfull, hhome b rfl rfl, Violation.when]
    | true =>
      rw [hc] at hlt
      have hfull : b.consume.hasRoom = true := by
        simpa [hasRoom, consume] using hlt
      simp [hfull, hhome b.consume rfl rfl, Violation.when]

theorem Served.read_cycle (h : Served hash slots depth cs taken b) (hslots : 0 < slots)
    (c : Command) (key : Key) :
    (b.cycle c).read key = Command.answer hash slots (cs ++ [c]) key := by
  have hhome : b.home key = Hash.slotIndex (hash key) slots := by
    rw [home, h.hasher_eq, h.size_eq]
    rfl
  have hlt : Hash.slotIndex (hash key) slots < slots := Hash.slotIndex_lt _ hslots
  have hslot : (b.cycle c).slotAt (Hash.slotIndex (hash key) slots) =
      Command.slotAfter (cs ++ [c]) (Hash.slotIndex (hash key) slots) := by
    rw [slotAt_cycle (h.size_eq.symm ▸ hlt), Command.slotAfter_snoc, h.slotAt_eq _ hlt]
  unfold read Command.answer
  rw [home_cycle, hhome]
  dsimp only
  rw [hslot]

theorem Served.commit (h : Served hash slots depth cs taken b) (hslots : 0 < slots)
    (hroom : c.probe.isSome = true → Command.queued cs - c.consume.toNat < depth) :
    ∃ b', b.commit c = .ok b' ∧
      Served hash slots depth (cs ++ [c])
        (taken ++ if c.consume then b.oldest?.toList else []) b' := by
  have hnone : b.cycleViolation? c = none := by
    apply cycleViolation?_eq_none (h.size_eq.symm ▸ hslots)
    · rw [h.hasher_eq]
      exact Hash.Hasher.isTotal_ofFunction hash
    · rwa [h.length_eq, h.depth_eq]
  have htaken : (if c.consume then b.oldest?.toList else []) ++
      (if c.consume then b.results.tail else b.results) = b.results := by
    cases c.consume with
    | false => rfl
    | true =>
      unfold oldest?
      cases b.results <;> rfl
  have hlength : (if c.consume then b.results.tail else b.results).length =
      b.results.length - c.consume.toNat := by
    cases c.consume with
    | false => rfl
    | true => exact List.length_tail
  have hread : (b.cycle c).read = Command.answer hash slots (cs ++ [c]) :=
    funext (h.read_cycle hslots c)
  have hlevel : (b.cycle c).results.length = Command.level (Command.queued cs) c := by
    rw [results_cycle, List.length_append, hlength, h.length_eq, Command.level]
    cases c.probe <;> rfl
  refine ⟨b.cycle c, guarded_eq_ok.2 ⟨hnone, rfl⟩, ?_⟩
  constructor
  · rw [size_cycle, h.size_eq]
  · rw [hasher_cycle, h.hasher_eq]
  · rw [depth_cycle, h.depth_eq]
  · intro i hi
    rw [slotAt_cycle (h.size_eq.symm ▸ hi), Command.slotAfter_snoc, h.slotAt_eq i hi]
  · rw [results_cycle, hread, Command.answers_snoc, ← h.answers_eq, List.append_assoc,
      ← List.append_assoc (if c.consume then _ else _), htaken, List.append_assoc]
  · rw [hlevel, Command.queued_snoc]
  · rw [hlevel]
    exact Command.level_le (h.length_eq ▸ h.length_le) hroom

theorem Served.serve (h : Served hash slots depth done taken b) (hslots : 0 < slots)
    (hfits : Command.Fits depth (Command.queued done) cs) :
    ∃ more b', b.serve cs = .ok (more, b') ∧
      Served hash slots depth (done ++ cs) (taken ++ more) b' := by
  induction cs generalizing b done taken with
  | nil =>
    refine ⟨[], b, rfl, ?_⟩
    rw [List.append_nil, List.append_nil]
    exact h
  | cons c cs ih =>
    obtain ⟨hroom, hrest⟩ := hfits
    obtain ⟨b', hb, hs⟩ := h.commit hslots hroom
    rw [← Command.queued_snoc] at hrest
    obtain ⟨more, b'', hmore, hs'⟩ := ih hs hrest
    rw [List.append_assoc, List.append_assoc] at hs'
    refine ⟨_, b'', ?_, hs'⟩
    rw [Bank.serve, hb]
    dsimp only
    rw [hmore]

theorem Served.stored?_eq_some (h : Served hash slots depth cs taken b) {key : Key} {data : Data} :
    b.stored? i = some (key, data) ↔
      i < slots ∧ ∃ w, Command.lastWrite? cs i = some w ∧ w.slot = ⟨key, data, true⟩ := by
  by_cases hi : i < slots
  · rw [stored?, h.slotAt_eq i hi, Slot.stored?_eq_some, Command.slotAfter, and_iff_right hi]
    cases Command.lastWrite? cs i with
    | none => simp
    | some w => simp
  · have hout : b.slotAt i = {} := slotAt_eq_of_le (h.size_eq.symm ▸ Nat.le_of_not_lt hi)
    rw [stored?, hout]
    exact iff_of_false nofun fun hw => hi hw.1

/-- A bank whose probes all find room serves every sequence of commands. Its answers come out in the
order of the probes, each from the slots as its own command left them, and its slots hold what was last
written to them; a write beyond the last slot and a result taken off an empty queue change nothing. -/
theorem serves_commands (hslots : 0 < slots) (hash : Key → Word) (depth : Nat) (cs : List Command)
    (hfits : Command.Fits (max depth 1) 0 cs) :
    ∃ taken b, (empty slots (.ofFunction hash) depth).serve cs = .ok (taken, b) ∧
      taken ++ b.results = Command.answers hash slots cs ∧
      b.oldest? = (Command.answers hash slots cs)[taken.length]? ∧
      b.results.length = Command.queued cs ∧ b.results.length ≤ max depth 1 ∧
      (b.hasRoom = true ↔ b.results.length < max depth 1) ∧
      (∀ i key data, b.stored? i = some (key, data) ↔
        i < slots ∧ ∃ w, Command.lastWrite? cs i = some w ∧ w.slot = ⟨key, data, true⟩) ∧
      (∀ (c : Command) (w : SlotWrite), slots ≤ w.index →
        b.commit { c with write := some w } = b.commit { c with write := none }) ∧
      (b.results = [] → ∀ c : Command,
        b.commit { c with consume := true } = b.commit { c with consume := false }) := by
  obtain ⟨taken, b, hserve, hs⟩ := (served_empty hash slots depth).serve hslots hfits
  rw [List.nil_append, List.nil_append] at hs
  have hhead : b.oldest? = (Command.answers hash slots cs)[taken.length]? := by
    rw [← hs.answers_eq, List.getElem?_append_right (Nat.le_refl _), Nat.sub_self, oldest?,
      List.head?_eq_getElem?]
  refine ⟨taken, b, hserve, hs.answers_eq, hhead, hs.length_eq, hs.length_le, ?_,
    fun i key data => hs.stored?_eq_some, fun c w hw => ?_, fun hnil c => ?_⟩
  · rw [hasRoom, hs.depth_eq, decide_eq_true_iff]
  · exact commit_of_size_le (hs.size_eq.symm ▸ hw) c
  · exact commit_of_results_nil hnil c

/-- Keys 5 and 7 share slot 1. The second probe is committed with the write that turns the slot over
to 7, and in the same command the answer to the first is taken off. -/
theorem serves_commands_shared :
    ∃ taken b, (empty 2 (.ofFunction id) 0).serve
        [{ write := some ⟨1, 5, 50, true⟩, probe := some 5 }, { write := some ⟨9, {}⟩ },
          { consume := true, write := some ⟨1, 7, 70, true⟩, probe := some 5 }] =
        .ok (taken, b) ∧
      taken ++ b.results = [⟨5, 1, true, ⟨5, 50, true⟩⟩, ⟨5, 1, false, ⟨7, 70, true⟩⟩] ∧
      b.results.length = 1 ∧ b.hasRoom = false ∧ b.stored? 1 = some (7, 70) := by
  obtain ⟨taken, b, hserve, hanswers, -, hlength, -, hroom, hstored, -⟩ :=
    serves_commands (by decide : 0 < 2) id 0
      [{ write := some ⟨1, 5, 50, true⟩, probe := some 5 }, { write := some ⟨9, {}⟩ },
        { consume := true, write := some ⟨1, 7, 70, true⟩, probe := some 5 }]
      (by simp [Command.Fits, Command.level])
  have hone : b.results.length = 1 := hlength
  refine ⟨taken, b, hserve, hanswers, hone, ?_, ?_⟩
  · rw [Bool.eq_false_iff, Ne, hroom, hone]
    decide
  · exact (hstored 1 7 70).2 ⟨by decide, _, rfl, rfl⟩

end Bank
end ClockedCuckoo
