import Mathlib.Data.List.Nodup
import Mathlib.Data.List.Perm.Subperm
import StagedAsm.Proofs.RegisterFile

/-!
# Shuffles are parallel moves

A shuffle brings the value of every source to its target as if all moves were made at once. The
proof follows the search: `Performs moves before after` says what the moves still to be made come
to, and each kind of step has a lemma that adds the move it takes off the list.

The exchange is where widths matter. When no move is free, every target is read by some move, so by
counting the sources are the targets in another order. Hence no register is read twice.
-/

namespace StagedAsm.Win64

open List RegisterFile

/-- Both registers have one width: a word, a double word or a quad word. -/
def Move.IsGeneral (move : Move) : Prop :=
  ∃ source target width, move = ⟨.general source width, .general target width⟩

/-- The registers that moves read. -/
def sourceBases (moves : List Move) : List RegisterBase := moves.map fun move => move.source.base

/-- The registers that moves write. -/
def targetBases (moves : List Move) : List RegisterBase := moves.map fun move => move.target.base

/-- All moves are made at once, and no other register changes. -/
def Performs (moves : List Move) (before after : RegisterFile) : Prop :=
  (∀ move ∈ moves, after.read? move.target = before.read? move.source) ∧
    ∀ base, .general base ∉ targetBases moves → after base = before base

variable {base source target : GeneralRegister} {first rest moves : List Move}
  {width seen : RegisterWidth} {before after : RegisterFile} {readerTarget : Register} {fuel : Nat}

theorem read?_write_of_ne (f : RegisterFile) {r : Register} (h : r.base ≠ .general base)
    (width : RegisterWidth) (value : BitVec 64) :
    (f.write base width value).read? r = f.read? r := by
  cases r with
  | general other _ =>
    have hne : other ≠ base := fun e => h (by rw [e]; rfl)
    simp only [RegisterFile.read?, f.write_of_ne hne]
  | lowByte _ => rfl
  | highByte _ => rfl
  | control _ => rfl

/-! ## The search -/

theorem except_bind_eq_ok {ε α β : Type} {x : Except ε α} {f : α → Except ε β} {b : β} :
    (x >>= f) = .ok b ↔ ∃ a, x = .ok a ∧ f a = .ok b := by
  cases x <;> simp [bind, Except.bind]

theorem base_of_resize {r x : Register} {size : Size} (h : r.resize size = .ok x) :
    x.base = r.base := by
  unfold Register.resize RegisterBase.part at h
  cases hbase : r.base with
  | control base =>
    rw [hbase] at h
    cases h
  | general base =>
    rw [hbase] at h
    cases hpart : base.part? size with
    | none => simp [hpart] at h
    | some part =>
      simp only [hpart, Except.ok.injEq] at h
      exact h ▸ Register.base_of_part? hpart

def Exchanges (move reader : Move) (source target found : Register) : Prop :=
  (if reader.source.size.bytes > move.source.size.bytes then
    move.source.resize reader.source.size = .ok source ∧
      move.target.resize reader.source.size = .ok target
  else move.source = source ∧ move.target = target) ∧
    source.resize reader.source.size = .ok found

theorem Exchanges.bases {move reader : Move} {source target found : Register}
    (h : Exchanges move reader source target found) : source.base = move.source.base ∧
      target.base = move.target.base ∧ found.base = move.source.base := by
  obtain ⟨hends, hfound⟩ := h
  split at hends
  · have hsource := base_of_resize hends.1
    exact ⟨hsource, base_of_resize hends.2, (base_of_resize hfound).trans hsource⟩
  · exact ⟨by rw [hends.1], by rw [hends.2], by rw [hends.1, base_of_resize hfound]⟩

def wider (a b : RegisterWidth) : RegisterWidth := if a.bits < b.bits then b else a

theorem bits_le_wider_left (a b : RegisterWidth) : a.bits ≤ (wider a b).bits := by
  cases a <;> cases b <;> decide

theorem bits_le_wider_right (a b : RegisterWidth) : b.bits ≤ (wider a b).bits := by
  cases a <;> cases b <;> decide

theorem resize_general (base other : GeneralRegister) (width seen : RegisterWidth) :
    (Register.general base width).resize (Register.general other seen).size =
      .ok (.general base seen) := by
  cases seen <;> rfl

theorem bytes_gt_iff (base other : GeneralRegister) (width seen : RegisterWidth) :
    (Register.general other seen).size.bytes > (Register.general base width).size.bytes ↔
      width.bits < seen.bits := by
  cases width <;> cases seen <;> simp [Register.size, Size.bytes, RegisterWidth.bits]

theorem exchanges_general (source target : GeneralRegister) (width seen : RegisterWidth)
    (readerTarget x y found : Register) :
    Exchanges ⟨.general source width, .general target width⟩ ⟨.general target seen, readerTarget⟩
        x y found ↔ x = .general source (wider width seen) ∧
      y = .general target (wider width seen) ∧ found = .general source seen := by
  simp only [Exchanges, bytes_gt_iff, resize_general, wider]
  split <;> grind [resize_general]

/-- The first move that reads the target is sent to the source. -/
theorem breakCycle_eq_ok {move reader : Move}
    (hne : move.source.base ≠ move.target.base)
    (hfirst : ∀ other ∈ first, other.source.base ≠ move.target.base)
    (hreader : reader.source.base = move.target.base) {result : List ShuffleStep × List Move} :
    breakCycle move (first ++ reader :: rest) = .ok result ↔
      ∃ source target found, Exchanges move reader source target found ∧
        ([.xchg target source], first ++ { reader with source := found } :: rest) = result := by
  have hidx : (first ++ reader :: rest).findIdx?
      (fun other => other.source.base == move.target.base) =
      some first.length := by
    rw [List.findIdx?_append, List.findIdx?_eq_none_iff.mpr]
    · simp [List.findIdx?_cons, hreader]
    · intro other hother
      simpa using hfirst other hother
  have hmodify : ∀ found : Register, (first ++ reader :: rest).modify first.length
      (fun other : Move => { other with source := found }) =
      first ++ { reader with source := found } :: rest := by
    intro found
    rw [List.modify_eq_set_getElem?]
    simp
  simp only [breakCycle, hne, if_false, hidx, List.getElem?_append_right .refl,
    Nat.sub_self, List.getElem?_cons_zero, Option.getD_some, hmodify, Exchanges]
  split <;> simp [except_bind_eq_ok, pure, Except.pure, and_assoc]

theorem sourceBases_perm_targetBases (nodup : (targetBases moves).Nodup)
    (blocked : ∀ move ∈ moves, move.isBlocked moves = true) :
    (targetBases moves).Perm (sourceBases moves) := by
  -- the targets are different and all among the sources, of which there are as many
  have hsub : targetBases moves ⊆ sourceBases moves := by
    intro base hbase
    obtain ⟨move, hmove, rfl⟩ := mem_map.mp hbase
    obtain ⟨other, hother, heq⟩ := any_eq_true.mp (blocked move hmove)
    exact mem_map.mpr ⟨other, hother, by simpa using heq⟩
  apply (nodup.subperm hsub).perm_of_length_le
  simp [sourceBases, targetBases]

/-- Exactly one of the other moves reads the target, none reads the source, and the source is a
    target. -/
structure StartsCycle (move : Move) (first : List Move) (reader : Move) (rest : List Move) :
    Prop where
  ends_ne : move.source.base ≠ move.target.base
  reads : reader.source.base = move.target.base
  unread : ∀ other ∈ first ++ rest,
    other.source.base ≠ move.source.base ∧ other.source.base ≠ move.target.base
  fresh : move.target.base ∉ targetBases (first ++ reader :: rest)
  written : move.source.base ∈ targetBases (first ++ reader :: rest)

theorem exists_startsCycle {move : Move} (nodup : (targetBases (move :: rest)).Nodup)
    (blocked : ∀ other ∈ move :: rest, other.isBlocked (move :: rest) = true)
    (hne : move.source.base ≠ move.target.base) :
    ∃ first reader last, rest = first ++ reader :: last ∧ StartsCycle move first reader last := by
  have hperm := sourceBases_perm_targetBases nodup blocked
  obtain ⟨sourceFresh, nodupSources⟩ := nodup_cons.mp (hperm.nodup_iff.mp nodup)
  have hread : move.target.base ∈ sourceBases rest :=
    (mem_cons.mp (hperm.mem_iff.mp mem_cons_self)).resolve_left hne.symm
  have hwritten : move.source.base ∈ targetBases rest :=
    (mem_cons.mp (hperm.mem_iff.mpr mem_cons_self)).resolve_left hne
  obtain ⟨reader, hreader, hbase⟩ := mem_map.mp hread
  obtain ⟨first, last, rfl⟩ := append_of_mem hreader
  refine ⟨first, reader, last, rfl, hne, hbase, ?_, (nodup_cons.mp nodup).1, hwritten⟩
  simp only [map_append, map_cons, nodup_middle, nodup_cons, mem_append,
    mem_cons, not_or, mem_map, hbase] at nodupSources sourceFresh
  intro other hother
  rcases mem_append.mp hother with hmem | hmem
  · exact ⟨fun heq => sourceFresh.1 ⟨other, hmem, heq⟩,
      fun heq => nodupSources.1.1 ⟨other, hmem, heq⟩⟩
  · exact ⟨fun heq => sourceFresh.2.2 ⟨other, hmem, heq⟩,
      fun heq => nodupSources.1.2 ⟨other, hmem, heq⟩⟩

theorem exists_append_of_findIdx? {α : Type} {p : α → Bool} {l : List α} {i : Nat}
    (h : l.findIdx? p = some i) :
    ∃ first a rest, l = first ++ a :: rest ∧ first.length = i ∧ p a = true := by
  obtain ⟨hi, hp, _⟩ := findIdx?_eq_some_iff_getElem.mp h
  refine ⟨l.take i, l[i], l.drop (i + 1), ?_, by simp; omega, hp⟩
  rw [getElem_cons_drop, take_append_drop]

theorem shuffleSteps_induction {motive : List Move → Except CompileError (List ShuffleStep) → Prop}
    (nil : motive [] (.ok []))
    (free : ∀ {first rest move result},
      (∀ other ∈ first ++ move :: rest, other.source.base ≠ move.target.base) →
      move.target.base ∉ targetBases (first ++ rest) → motive (first ++ rest) result →
      motive (first ++ move :: rest)
        (do let steps ← result; return .mov move.target move.source :: steps))
    (self : ∀ {move rest result}, move.source.base = move.target.base →
      move.target.base ∉ targetBases rest → motive rest result → motive (move :: rest) result)
    (cycle : ∀ {move first reader rest source target found result},
      StartsCycle move first reader rest → Exchanges move reader source target found →
      motive (first ++ { reader with source := found } :: rest) result →
      motive (move :: (first ++ reader :: rest))
        (do let steps ← result; return .xchg target source :: steps))
    (stuck : ∀ {move first reader rest fault}, StartsCycle move first reader rest →
      (∀ source target found, ¬ Exchanges move reader source target found) →
      motive (move :: (first ++ reader :: rest)) (.error fault))
    (hfuel : moves.length ≤ fuel) (nodup : (targetBases moves).Nodup) :
    motive moves (shuffleSteps fuel moves) := by
  -- every turn takes one move off the list, so the number of moves bounds the turns
  induction fuel generalizing moves with
  | zero =>
    obtain rfl := List.length_eq_zero_iff.mp (Nat.le_zero.mp hfuel)
    exact nil
  | succ fuel ih =>
    unfold shuffleSteps
    cases hfound : moves.findIdx? (fun move => !move.isBlocked moves) with
    | some i =>
      obtain ⟨first, move, rest, rfl, rfl, hfree⟩ := exists_append_of_findIdx? hfound
      simp only [Move.isBlocked, Bool.not_eq_true', any_eq_false, beq_iff_eq] at hfree
      simp only [targetBases, map_append, map_cons, nodup_middle,
        nodup_cons] at nodup
      rw [← map_append] at nodup
      have herase : (first ++ move :: rest).eraseIdx first.length = first ++ rest := by
        rw [List.eraseIdx_append_of_length_le .refl, Nat.sub_self, List.eraseIdx_cons_zero]
      have hget : (first ++ move :: rest)[first.length]?.getD default = move := by simp
      simp only [herase, hget]
      exact free hfree nodup.1 (ih (by simp at hfuel ⊢; omega) nodup.2)
    | none =>
      cases moves with
      | nil => exact nil
      | cons move rest =>
        obtain ⟨fresh, nodupRest⟩ := nodup_cons.mp nodup
        have hlength : rest.length ≤ fuel := by simpa using hfuel
        change motive _ (do
          let broken ← breakCycle move rest
          let steps ← shuffleSteps fuel broken.2
          return broken.1 ++ steps)
        by_cases hself : move.source.base = move.target.base
        · have hskip : breakCycle move rest = .ok ([], rest) := by rw [breakCycle, if_pos hself]
          have hsame : (do let steps ← shuffleSteps fuel rest; return [] ++ steps) =
              shuffleSteps fuel rest := bind_pure _
          rw [hskip]
          exact self hself fresh (hsame ▸ ih hlength nodupRest)
        · have hblocked : ∀ other ∈ move :: rest, other.isBlocked (move :: rest) = true := by
            intro other hother
            simpa using findIdx?_eq_none_iff.mp hfound other hother
          obtain ⟨first, reader, last, rfl, hcycle⟩ := exists_startsCycle nodup hblocked hself
          have hbreak := @breakCycle_eq_ok first last move reader hself
            (fun other hother => (hcycle.unread other (mem_append_left _ hother)).2) hcycle.reads
          cases hresult : breakCycle move (first ++ reader :: last) with
          | error fault =>
            refine stuck hcycle fun source target found h => ?_
            cases hresult.symm.trans (hbreak.mpr ⟨_, _, _, h, rfl⟩)
          | ok result =>
            obtain ⟨source, target, found, hexchange, rfl⟩ := hbreak.mp hresult
            refine cycle hcycle hexchange (ih ?_ ?_)
            · simpa using hlength
            · simpa [targetBases] using nodupRest

/-! ## The kinds of steps -/

/-- A move whose target nobody reads is made first. -/
theorem Performs.of_mov
    (unread : ∀ move ∈ first ++ ⟨.general source width, .general target width⟩ :: rest,
      move.source.base ≠ .general target)
    (fresh : .general target ∉ targetBases (first ++ rest))
    (h : Performs (first ++ rest) (before.write target width (before source)) after) :
    Performs (first ++ ⟨.general source width, .general target width⟩ :: rest) before after := by
  obtain ⟨made, kept⟩ := h
  constructor
  · intro move hmove
    rcases (perm_middle.mem_iff.trans mem_cons).mp hmove with rfl | hin
    -- no later move has this target, so what was written stays
    · simp only [RegisterFile.read?, kept target fresh, RegisterFile.write_self,
        RegisterFile.low_merge .refl]
    · rw [made move hin, read?_write_of_ne before (unread move hmove)]
  · intro base hbase
    simp only [targetBases, map_append, map_cons, mem_append, mem_cons,
      not_or] at hbase
    have hne : base ≠ target := fun e => hbase.2.1 (by rw [e]; rfl)
    rw [kept base, before.write_of_ne hne]
    simp only [targetBases, map_append, mem_append, not_or]
    exact ⟨hbase.1, hbase.2.2⟩

theorem Performs.of_self (fresh : .general base ∉ targetBases rest)
    (h : Performs rest before after) :
    Performs (⟨.general base width, .general base width⟩ :: rest) before after := by
  obtain ⟨made, kept⟩ := h
  constructor
  · intro move hmove
    rcases mem_cons.mp hmove with rfl | hm
    · simp only [RegisterFile.read?, kept base fresh]
    · exact made move hm
  · intro other hother
    simp only [targetBases, map_cons, mem_cons, not_or] at hother
    exact kept other hother.2

/-- Each register holds the low part of the other. -/
theorem exec_xchg (hne : source ≠ target) (width : RegisterWidth) (before : RegisterFile) :
    ∃ after, (ShuffleStep.xchg (.general target width) (.general source width)).exec before =
        some after ∧
      after target = RegisterFile.merge width (before target) (before source) ∧
      after source = RegisterFile.merge width (before source) (before target) ∧
      ∀ other, other ≠ source → other ≠ target → after other = before other := by
  refine ⟨(before.write target width (before source)).write source width (before target),
    by simp only [ShuffleStep.exec, if_true], ?_, ?_, ?_⟩
  · rw [write_of_ne _ hne.symm, write_self]
  · rw [write_self, write_of_ne _ hne]
  · intro other hs ht
    rw [write_of_ne _ hs, write_of_ne _ ht]

theorem Performs.of_xchg {middle : RegisterFile}
    (hcycle : StartsCycle ⟨.general source width, .general target width⟩ first
      ⟨.general target seen, readerTarget⟩ rest)
    (htarget : middle target =
      RegisterFile.merge (wider width seen) (before target) (before source))
    (hsource : middle source =
      RegisterFile.merge (wider width seen) (before source) (before target))
    (hother : ∀ other, other ≠ source → other ≠ target → middle other = before other)
    (h : Performs (first ++ ⟨.general source seen, readerTarget⟩ :: rest) middle after) :
    Performs (⟨.general source width, .general target width⟩ ::
      (first ++ ⟨.general target seen, readerTarget⟩ :: rest)) before after := by
  obtain ⟨made, kept⟩ := h
  obtain ⟨-, -, unread, fresh, written⟩ := hcycle
  -- sending the reader elsewhere changes no target
  have htargets : targetBases (first ++ ⟨.general target seen, readerTarget⟩ :: rest) =
      targetBases (first ++ ⟨.general source seen, readerTarget⟩ :: rest) := by
    simp [targetBases]
  rw [htargets] at fresh written
  constructor
  · intro move hmove
    rcases mem_cons.mp hmove with rfl | hm
    · simp only [RegisterFile.read?, kept target fresh, htarget,
        low_merge (bits_le_wider_left width seen)]
    rcases (perm_middle.mem_iff.trans mem_cons).mp hm with rfl | hin
    · rw [made ⟨.general source seen, readerTarget⟩ (by simp)]
      simp only [RegisterFile.read?, hsource,
        low_merge (bits_le_wider_right width seen)]
    · -- what the other moves read is as it was
      rw [made move (perm_middle.mem_iff.mpr (mem_cons_of_mem _ hin))]
      obtain ⟨hs, ht⟩ := unread move hin
      cases hsrc : move.source with
      | general other w =>
        rw [hsrc] at hs ht
        have hs' : other ≠ source := fun e => hs (by rw [e]; rfl)
        have ht' : other ≠ target := fun e => ht (by rw [e]; rfl)
        simp only [RegisterFile.read?, hother other hs' ht']
      | lowByte _ => rfl
      | highByte _ => rfl
      | control _ => rfl
  · intro base hbase
    simp only [targetBases, map_cons, mem_cons, not_or] at hbase
    have hkept : .general base ∉
        targetBases (first ++ ⟨.general source seen, readerTarget⟩ :: rest) := htargets ▸ hbase.2
    have hs : base ≠ source := fun e => hkept (e ▸ written)
    have ht : base ≠ target := fun e => hbase.1 (by rw [e]; rfl)
    rw [kept base hkept, hother base hs ht]

/-- The search finds instructions, and they make the moves. -/
def Solves (fuel : Nat) (moves : List Move) : Prop :=
  ∃ steps, shuffleSteps fuel moves = .ok steps ∧
    ∀ before, ∃ after, ShuffleStep.execAll steps before = some after ∧ Performs moves before after

theorem solves_of_nodup (hfuel : moves.length ≤ fuel) (general : ∀ move ∈ moves, move.IsGeneral)
    (nodup : (targetBases moves).Nodup) : Solves fuel moves := by
  revert general
  refine shuffleSteps_induction (motive := fun moves result => (∀ move ∈ moves, move.IsGeneral) →
    ∃ steps, result = .ok steps ∧ ∀ before, ∃ after,
      ShuffleStep.execAll steps before = some after ∧ Performs moves before after)
    ?_ ?_ ?_ ?_ ?_ hfuel nodup
  case refine_1 => exact fun _ => ⟨[], rfl, fun before => ⟨before, rfl, by simp [Performs]⟩⟩
  case refine_2 =>
    intro first rest move result unread fresh ih general
    obtain ⟨source, target, width, rfl⟩ := general move (by simp)
    obtain ⟨steps, rfl, hrun⟩ := ih fun other hother =>
      general other (perm_middle.mem_iff.mpr (mem_cons_of_mem _ hother))
    refine ⟨_, rfl, fun before => ?_⟩
    obtain ⟨after, hafter, hperf⟩ := hrun (before.write target width (before source))
    refine ⟨after, ?_, .of_mov unread fresh hperf⟩
    simpa only [ShuffleStep.execAll, ShuffleStep.exec, if_true, Option.bind_some] using hafter
  case refine_3 =>
    intro move rest result hself fresh ih general
    obtain ⟨source, target, width, rfl⟩ := general move (by simp)
    obtain rfl : source = target := RegisterBase.general.inj hself
    obtain ⟨steps, rfl, hrun⟩ := ih fun other hother => general other (by simp [hother])
    refine ⟨steps, rfl, fun before => ?_⟩
    obtain ⟨after, hafter, hperf⟩ := hrun before
    exact ⟨after, hafter, .of_self fresh hperf⟩
  case refine_4 =>
    intro move first reader rest exchanged written found result hcycle hexchange ih general
    obtain ⟨source, target, width, rfl⟩ := general move (by simp)
    obtain ⟨readerSource, readerTarget, seen, rfl⟩ := general reader (by simp)
    obtain rfl : readerSource = target := RegisterBase.general.inj hcycle.reads
    obtain ⟨rfl, rfl, rfl⟩ := (exchanges_general ..).mp hexchange
    have hfound : Move.IsGeneral ⟨.general source seen, .general readerTarget seen⟩ :=
      ⟨source, readerTarget, seen, rfl⟩
    obtain ⟨steps, rfl, hrun⟩ := ih fun other hother => by
      rcases (perm_middle.mem_iff.trans mem_cons).mp hother with rfl | hin
      · exact hfound
      · exact general other (by simp [perm_middle.mem_iff, hin])
    refine ⟨_, rfl, fun before => ?_⟩
    have hne : source ≠ readerSource := fun e => hcycle.ends_ne (by rw [e])
    obtain ⟨middle, hexec, htarget, hsource, hother⟩ := exec_xchg hne (wider width seen) before
    obtain ⟨after, hafter, hperf⟩ := hrun middle
    refine ⟨after, ?_, .of_xchg hcycle htarget hsource hother hperf⟩
    simp only [ShuffleStep.execAll, hexec, Option.bind_some, hafter]
  case refine_5 =>
    intro move first reader rest fault hcycle hstuck general
    obtain ⟨source, target, width, rfl⟩ := general move (by simp)
    obtain ⟨readerSource, readerTarget, seen, rfl⟩ := general reader (by simp)
    obtain rfl : readerSource = target := RegisterBase.general.inj hcycle.reads
    exact absurd ((exchanges_general ..).mpr ⟨rfl, rfl, rfl⟩) (hstuck _ _ _)

/-- A shuffle always finds instructions, and executing their lines brings to every target what its
    source held before the first of them, as wide as the move. -/
theorem shuffle_parallel_move (moves : List Move) (general : ∀ move ∈ moves, move.IsGeneral)
    (nodup : (moves.map fun move => move.target.base).Nodup) (before : RegisterFile) :
    ∃ steps after, shuffle moves = .ok steps ∧
      ShuffleStep.execLines (steps.map ShuffleStep.text) before = some after ∧
      ∀ move ∈ moves, after.read? move.target = before.read? move.source := by
  obtain ⟨steps, hsteps, hrun⟩ := solves_of_nodup (Nat.le_refl _) general nodup
  obtain ⟨after, hafter, made, _⟩ := hrun before
  exact ⟨steps, after, hsteps, by rw [ShuffleStep.execLines_map_text, hafter], made⟩

/-- A cycle of three widths with a register that is read twice, from registers that hold their own
    numbers in all four words. -/
theorem shuffle_parallel_move_mixed_cycle : let moves : List Move :=
      [⟨.general .rdx .word, .general .rcx .word⟩, ⟨.general .r8 .dword, .general .rdx .dword⟩,
        ⟨.general .rcx .qword, .general .r8 .qword⟩, ⟨.general .rdx .qword, .general .r9 .qword⟩]
    let before : RegisterFile := fun r =>
      BitVec.ofNat 64 (GeneralRegister.all.idxOf r * 0x1000100010001)
    (∀ move ∈ moves, move.IsGeneral) ∧ (moves.map fun move => move.target.base).Nodup ∧
      ∃ steps after, shuffle moves = .ok steps ∧
        ShuffleStep.execLines (steps.map ShuffleStep.text) before = some after ∧
        ∀ move ∈ moves, after.read? move.target = before.read? move.source := by
  intro moves before
  have general : ∀ move ∈ moves, move.IsGeneral := by
    simp [moves, Move.IsGeneral]
  have nodup : (moves.map fun move => move.target.base).Nodup := by decide
  exact ⟨general, nodup, shuffle_parallel_move moves general nodup before⟩

end StagedAsm.Win64
