import StagedAsm.Proofs.FrameLayout
import StagedAsm.Proofs.FunctionLines
import StagedAsm.Proofs.TreeRuns

/-!
# Frames are laid out safely

A prologue moves the pointer below the return address and names the parameters above it; an epilogue
gives the frame a size that covers its extent. So every variable declared in between has an address
on the frame, apart from the variables it was open together with and from the arguments of calls.
-/

namespace StagedAsm

open EngineId ScopeTree Win64

/-! ## The prologue -/

/-- Nothing was put on the frame yet. -/
structure ScopeTree.Unused (t : ScopeTree) (f : FrameId) : Prop where
  lt : f.index < t.frames.size
  pointer : (t.frame f).pointer = 0
  empty : ∀ id, (t.scope id).frame = some f → (t.scope id).variableBytes = 0 ∧
    ∀ name offset type, t.member? id name ≠ some (.slot f offset type)

variable {f : FrameId} {r : Runner} {name : String} {s s' : Session} {own : ScopeId} {e : EngineId}
  {size : UInt32} {offset : Int} {type : ValueType}

theorem ScopeTree.Unused.of_all {t : ScopeTree} (hlt : f.index < t.frames.size)
    (hpointer : (t.frame f).pointer = 0) (hall : t.scopes.all (fun s => s.frame != some f ||
      s.variableBytes == 0 && s.members.entries.isEmpty) = true) : t.Unused f := by
  refine ⟨hlt, hpointer, fun id hframe => ?_⟩
  have hid : id.index < t.scopes.size := by
    apply Decidable.byContradiction
    intro hge
    rw [scope_of_size_le (Nat.le_of_not_lt hge)] at hframe
    cases hframe
  have hscope : t.scope id = t.scopes[id.index] := by
    simp [scope, hid]
  have hbare := Array.all_eq_true.mp hall id.index hid
  rw [← hscope, hframe] at hbare
  simp only [bne_self_eq_false, Bool.false_or, Bool.and_eq_true, beq_iff_eq,
    List.isEmpty_iff] at hbare
  refine ⟨hbare.1, fun name offset type hmember => ?_⟩
  rw [member?, Dictionary.get?, hbare.2] at hmember
  cases hmember

section Unused

variable {t t' : ScopeTree} {id : ScopeId}

theorem ScopeTree.Unused.push {scope : Scope} (h : t.Unused f)
    (hnew : scope.frame = some f → scope.variableBytes = 0 ∧ scope.members = ∅) :
    (t.push scope).2.Unused f := by
  refine ⟨h.lt, h.pointer, fun id hframe => ?_⟩
  simp only [member?, scope_push] at hframe ⊢
  split at hframe
  · rename_i hid
    obtain ⟨hbytes, hmembers⟩ := hnew hframe
    rw [if_pos hid, hbytes, hmembers]
    exact ⟨rfl, fun _ _ _ hs => by cases hs⟩
  · rename_i hid
    rw [if_neg hid]
    exact h.empty id hframe

theorem ScopeTree.Unused.modifyScope {g : Scope → Scope} (h : t.Unused f)
    (hg : ∀ scope, (g scope).frame = scope.frame ∧
      (g scope).variableBytes = scope.variableBytes ∧ (g scope).members = scope.members)
    (id : ScopeId) : (t.modifyScope id g).Unused f := by
  refine ⟨h.lt, h.pointer, fun other hframe => ?_⟩
  obtain ⟨hsame, hbytes, hmembers⟩ := hg (t.scope id)
  simp only [member?, scope_modifyScope] at hframe ⊢
  split at hframe
  · rename_i hother
    rw [if_pos hother, hbytes, hmembers]
    exact h.empty id (hsame.symm.trans hframe)
  · rename_i hother
    rw [if_neg hother]
    exact h.empty other hframe

theorem ScopeTree.Unused.of_addFunction {parent : ScopeId}
    (hframes : ∀ {id g}, (t.scope id).frame = some g → g.index < t.frames.size)
    (h : addFunction parent name t = .ok own t') :
    (t'.scope own).frame = some ⟨t.frames.size⟩ ∧ t'.Unused ⟨t.frames.size⟩ := by
  rcases addFunction_cases parent name t with ⟨fault, herror⟩ | ⟨-, hok⟩
  · cases herror.symm.trans h
  · cases hok.symm.trans h
    refine ⟨by rw [scope_push]; exact congrArg Scope.frame (if_pos rfl),
      .push ⟨?_, ?_, fun id hid => absurd (hframes hid) (Nat.lt_irrefl _)⟩ fun _ => ⟨rfl, rfl⟩⟩
    · exact (Array.size_push _).symm ▸ Nat.lt_succ_self _
    · simp [frame]

theorem ScopeTree.Unused.nextBlock {block : ScopeId} (h : t.Unused f)
    (hnext : nextBlock id t = .ok block t') : t'.Unused f := by
  rcases nextBlock_eq_ok.mp hnext with ⟨-, rfl⟩ | ⟨-, -, -, rfl⟩
  · refine h.modifyScope ?_ id
    exact fun _ => ⟨rfl, rfl, rfl⟩
  · refine (h.push ?_).modifyScope ?_ id
    · exact fun _ => ⟨rfl, rfl⟩
    · exact fun _ => ⟨rfl, rfl, rfl⟩

theorem ScopeTree.Unused.rewindBlocks (h : t.Unused f)
    (hrewind : rewindBlocks id t = .ok () t') : t'.Unused f := by
  obtain ⟨-, rfl⟩ := rewindBlocks_eq_ok.mp hrewind
  refine h.modifyScope ?_ id
  exact fun _ => ⟨rfl, rfl, rfl⟩

end Unused

theorem Standing.prologue {first : Session} (hwf : s.tree.WellFormed) (hunused : s.tree.Unused f)
    (hscope : s.tree.functionScope? (s.engine r.engine).currentScope name = some own)
    (hopens : Win64.Opens r own f s first s') :
    Standing r.engine f own (s.engine r.engine).scopes [own] (· = own) s' ∧
      (s'.tree.frame f).size = none ∧ (s'.tree.frame f).pointer = -8 ∧
      8 ≤ (s'.tree.frame f).extent.toNat ∧ (s'.tree.scope own).variableBytes = 0 := by
  obtain ⟨hlt, horigin⟩ := find?_eq_some hscope
  obtain ⟨frame, visit, hset, htree⟩ := hopens.moved
  obtain ⟨-, hunset, hpointer, -, -, hcovered⟩ := Frame.setPointer_eq_ok hset
  obtain ⟨hbytes, -⟩ := hunused.empty own hopens.frame
  rw [hunused.pointer] at hpointer hcovered
  have hframe : s'.tree.frame f = frame := by
    rw [hopens.named.frame, htree, frame_setFrame, if_pos ⟨rfl, hunused.lt⟩]
  have hscopes : (s'.engine r.engine).scopes = own :: (s.engine r.engine).scopes :=
    hopens.named.scopes.trans hopens.scopes
  have hplace : (s'.tree.scope own).shape = (s.tree.scope own).shape := by
    rw [hopens.named.shape, htree, scope_setFrame, scope_visited]
  simp only [Scope.shape, Prod.mk.injEq] at hplace
  have hother : ∀ id, id ≠ own → s'.tree.scope id = s.tree.scope id := by
    intro id hne
    rw [hopens.named.other id hne, htree, scope_setFrame, scope_visited]
  have hkeeps : s.tree.Keeps s'.tree := by
    refine trans_of ScopeTree.Keeps ?_ hopens.named.keeps
    rw [htree]
    exact trans_of ScopeTree.Keeps (keeps_visited _ _) (keeps_setFrame _ _ _)
  have hwalk : Walk s'.tree f [own] (· = own) := by
    apply Walk.entered (hkeeps.wellFormed hwf) (lt_of_lt_of_le hlt hkeeps.size)
      (hkeeps.frame hopens.frame) (hplace.1.trans horigin)
    intro id hne hid
    have hsame := hother id hne
    rw [hsame] at hid ⊢
    obtain ⟨hbytes', hslots⟩ := hunused.empty id hid
    refine ⟨hbytes', fun name offset type hmember => hslots name offset type ?_⟩
    rw [member?, ← hsame]
    exact hmember
  have hframes : f.index < s'.tree.frames.size := by
    rw [hopens.named.frames, htree]
    simpa [setFrame, visited] using hunused.lt
  refine ⟨⟨hscopes, rfl, hplace.2.2.1.trans (hwf.function_named horigin), hwalk, hframes⟩, ?_⟩
  rw [hframe]
  refine ⟨hunset, hpointer, ?_, ?_⟩
  · have hle := hcovered (by omega)
    omega
  · rw [hopens.named.variableBytes, htree, scope_setFrame, scope_visited, hbytes]

theorem Inside.prologue {parameters : List (TypeRefId × String)} (hwf : s.tree.WellFormed)
    (hunused : s.tree.Unused f)
    (hscope : s.tree.functionScope? (s.engine r.engine).currentScope name = some own)
    (hframe : (s.tree.scope own).frame = some f)
    (hsmall : ∀ parameter ∈ r.parametersOf name s, parameter.type.bytes ≤ 8)
    (hop : Win64.prologue r .generate name parameters s = .ok () s') :
    Inside r.engine f own (s.engine r.engine).scopes [own] (· = own) s' := by
  obtain ⟨-, label, id, first, hopens, -, hplaces⟩ := prologue_places hscope hframe hop
  obtain ⟨hstanding, -, hpointer, hextent, hbytes⟩ := Standing.prologue hwf hunused hscope hopens
  have hfirst : (first.tree.frame f).pointer = -8 := by rw [← hpointer, hopens.named.frame]
  -- Nothing was on the frame before, so only parameters are.
  have hslot : ∀ x : StackVariable, x.scope = own → x.In s'.tree f → ∃ i : Nat, ∃ parameter,
      (r.parametersOf name s)[i]? = some parameter ∧ x.name = parameter.name ∧
        x.offset = 8 * i ∧ x.type.bytes.toNat ≤ 8 := by
    rintro ⟨scope, name, offset, type⟩ rfl hin
    rcases hplaces.only name _ hin with hold | ⟨i, parameter, hparameter, hname, hplace⟩
    · exact absurd hold ((hunused.empty _ hframe).2 name offset type)
    · obtain ⟨-, hoffset, rfl⟩ := Symbol.slot.inj hplace
      have hle := UInt32.le_iff_toNat_le.mp (hsmall parameter (List.mem_of_getElem? hparameter))
      rw [hfirst, Frame.returnAddress] at hoffset
      exact ⟨i, parameter, hparameter, hname, by omega, hle⟩
  refine ⟨hstanding, hstanding.lt, ⟨?_, ?_⟩, ?_, ?_⟩
  · intro x hx hin
    obtain ⟨i, -, -, -, hoffset, -⟩ := hslot x hx hin
    omega
  · rw [hbytes, hpointer]
    rfl
  · omega
  · intro x y hx hy hinx hiny hne
    have hx' := List.mem_singleton.mp hx
    have hy' := List.mem_singleton.mp hy
    obtain ⟨i, parameter, hi, hnamex, hoffsetx, hsizex⟩ := hslot x hx' hinx
    obtain ⟨j, other, hj, hnamey, hoffsety, hsizey⟩ := hslot y hy' hiny
    have hij : i ≠ j := by
      rintro rfl
      obtain rfl := Option.some.inj (hi.symm.trans hj)
      exact hne (Prod.ext (hx'.trans hy'.symm) (hnamex.trans hnamey.symm))
    rcases lt_or_gt_of_ne hij with hlt | hlt
    · exact .inl (by omega)
    · exact .inr (by omega)

/-! ## The epilogue -/

theorem Win64.close_eq_ok (hlt : f.index < s.tree.frames.size)
    (hframe : (s.tree.scope (s.engine e).currentScope).frame = some f)
    (h : (e.movePointer Frame.returnAddress >>= fun _ => e.setStackSize size >>= fun _ =>
      e.exitLocal) s = .ok () s') : (s'.tree.frame f).size = some size ∧ s.tree.Keeps s'.tree := by
  obtain ⟨_, s1, hmove, h1⟩ := bind_eq_ok.mp h
  obtain ⟨f', frame, -, hf', -, -, rfl⟩ := movePointer_eq_ok.mp hmove
  obtain rfl : f' = f := Option.some.inj (hf'.symm.trans hframe)
  obtain ⟨_, s2, hsize, h2⟩ := bind_eq_ok.mp h1
  obtain ⟨f'', sections, hf'', -, rfl⟩ := setStackSize_eq_ok hsize
  obtain rfl : f'' = f' := Option.some.inj (hf''.symm.trans hframe)
  obtain ⟨t, hrewind, rfl⟩ := exitLocal_eq_ok h2
  have hkeeps := (moves_rewindBlocks _).of_ok hrewind
  obtain ⟨-, rfl⟩ := rewindBlocks_eq_ok.mp hrewind
  refine ⟨?_, ?_⟩
  · show (((s.tree.setFrame f'' frame).setFrame f'' _).frame f'').size = some size
    rw [setFrame_setFrame, frame_setFrame, if_pos ⟨rfl, hlt⟩]
  · exact trans_of ScopeTree.Keeps (keeps_setFrame _ _ _)
      (trans_of ScopeTree.Keeps (keeps_setFrame _ _ _) (hkeeps.visited _))

theorem Win64.toNat_padding {alignment : UInt32} (hpositive : 0 < alignment.toNat) (size : UInt32) :
    (Win64.padding size alignment).toNat = if size.toNat % alignment.toNat = 0 then 0
      else alignment.toNat - size.toNat % alignment.toNat := by
  have hne : (alignment == 0) = false := by
    rw [beq_eq_false_iff_ne]
    rintro rfl
    simp at hpositive
  have hle : size % alignment ≤ alignment := by
    rw [UInt32.le_iff_toNat_le, UInt32.toNat_mod]
    exact Nat.le_of_lt (Nat.mod_lt _ hpositive)
  have hzero : (size % alignment == 0) = decide (size.toNat % alignment.toNat = 0) := by
    rw [Bool.eq_iff_iff, beq_iff_eq, decide_eq_true_eq, ← UInt32.toNat_inj, UInt32.toNat_mod]
    rfl
  unfold Win64.padding
  rw [hne, hzero, Bool.false_or]
  simp only [decide_eq_true_eq]
  split
  · rfl
  · rw [UInt32.toNat_sub_of_le _ _ hle, UInt32.toNat_mod]

theorem Win64.add_padding_mod {alignment : UInt32} (hpositive : 0 < alignment.toNat)
    (size : UInt32) :
    (size.toNat + (Win64.padding size alignment).toNat) % alignment.toNat = 0 := by
  rw [Win64.toNat_padding hpositive]
  have hlt := Nat.mod_lt size.toNat hpositive
  have hdiv := Nat.mod_add_div size.toNat alignment.toNat
  split
  · rename_i hzero
    rw [Nat.add_zero, hzero]
  · have hsum : size.toNat + (alignment.toNat - size.toNat % alignment.toNat) =
        alignment.toNat * (size.toNat / alignment.toNat + 1) := by
      rw [Nat.mul_add]
      omega
    rw [hsum, Nat.mul_mod_right]

theorem Win64.epilogue_pads (hframe : (s.tree.scope (s.engine e).currentScope).frame = some f)
    (h : Win64.epilogue e .generate s = .ok () s') :
    ∃ size s1, (e.movePointer Frame.returnAddress >>= fun _ => e.setStackSize size >>= fun _ =>
        e.exitLocal) s1 = .ok () s' ∧ (s1 = s ∨ ∃ bytes, e.allocate bytes s = .ok () s1) ∧
      (s.tree.frame f).extent.toNat ≤ size.toNat ∧
      ((s.tree.frame f).isLeaf = false → 0 < s.settings.stackAlignment.toNat →
        size.toNat % s.settings.stackAlignment.toNat = 0) := by
  unfold Win64.epilogue at h
  rw [if_pos rfl] at h
  obtain ⟨extent, s1, hextent, h1⟩ := bind_eq_ok.mp h
  obtain ⟨frame, _, hstate, hreturn⟩ := bind_eq_ok.mp hextent
  obtain ⟨g, -, hg, rfl, rfl⟩ := frameState_eq_ok.mp hstate
  obtain rfl : f = g := Option.some.inj (hframe.symm.trans hg)
  obtain ⟨rfl, rfl⟩ := pure_eq_ok.mp hreturn
  obtain ⟨isLeaf, s2, hleaf, h2⟩ := bind_eq_ok.mp h1
  obtain ⟨frame, _, hstate, hreturn⟩ := bind_eq_ok.mp hleaf
  obtain ⟨g, -, hg, rfl, rfl⟩ := frameState_eq_ok.mp hstate
  obtain rfl : f = g := Option.some.inj (hframe.symm.trans hg)
  obtain ⟨rfl, rfl⟩ := pure_eq_ok.mp hreturn
  rw [get_bind_eq_ok] at h2
  dsimp only at h2
  split at h2
  · rename_i hnone
    refine ⟨_, s2, h2, .inl rfl, le_refl _, fun hcalls hpositive => ?_⟩
    rw [hcalls, Bool.false_or, beq_iff_eq] at hnone
    have haligned := add_padding_mod hpositive (s2.tree.frame f).extent
    rwa [hnone, UInt32.toNat_zero, Nat.add_zero] at haligned
  · obtain ⟨_, s3, hallocate, h3⟩ := bind_eq_ok.mp h2
    obtain ⟨size, s4, hsum, h4⟩ := bind_eq_ok.mp h3
    obtain ⟨hbytes, rfl⟩ := ofFault_eq_ok.mp hsum
    have htotal := addBytes_eq_ok_iff.mp hbytes
    refine ⟨size, s4, h4, .inr ⟨_, hallocate⟩, by omega, fun _ hpositive => ?_⟩
    rw [htotal]
    exact add_padding_mod hpositive _

theorem Win64.epilogue_eq_ok (hlt : f.index < s.tree.frames.size)
    (hframe : (s.tree.scope (s.engine e).currentScope).frame = some f)
    (h : Win64.epilogue e .generate s = .ok () s') :
    ∃ size, (s'.tree.frame f).size = some size ∧
      (s.tree.frame f).extent.toNat ≤ size.toNat ∧ s.tree.Keeps s'.tree := by
  obtain ⟨size, s1, hclose, rfl | ⟨bytes, hallocate⟩, hcovers, -⟩ := epilogue_pads hframe h
  · obtain ⟨hset, hkeeps⟩ := close_eq_ok hlt hframe hclose
    exact ⟨size, hset, hcovers, hkeeps⟩
  · obtain ⟨-, t, ht, rfl⟩ := allocate_eq_ok.mp hallocate
    have hkeeps := (within_allocate (R := Keeps) _ _).of_ok ht
    obtain ⟨_, _, _, -, -, -, htree⟩ := allocate_eq_ok ht
    have hlt' : f.index < t.frames.size := by
      rw [htree]
      simpa [modifyScope, setFrame] using hlt
    obtain ⟨hset, hclosed⟩ := close_eq_ok hlt' (hkeeps.frame hframe) hclose
    exact ⟨size, hset, hcovers, trans_of ScopeTree.Keeps hkeeps hclosed⟩

/-! ## Addresses -/

namespace StackVariable

/-- The bytes of a variable, counted from the stack pointer. -/
def Holds (x : StackVariable) (size : UInt32) (byte : Int) : Prop :=
  x.offset + size.toNat ≤ byte ∧ byte < x.offset + size.toNat + x.type.bytes.toNat

theorem Apart.not_holds {x y : StackVariable} (h : x.Apart y) {size : UInt32} {byte : Int}
    (hx : x.Holds size byte) : ¬y.Holds size byte := by
  intro hy
  obtain ⟨hx1, hx2⟩ := hx
  obtain ⟨hy1, hy2⟩ := hy
  rcases h with h | h <;> omega

end StackVariable

theorem Session.render_slot_of_fits (hsize : (s.tree.frame f).size = some size)
    (hlow : 0 ≤ offset + size.toNat) (hfits : FitsOffset (offset + size.toNat)) :
    s.render (.slot f offset type) = .ok (some s!"rsp + {offset + size.toNat}") := by
  have hdenoted : s.denoted (.slot f offset type) = .slot f offset type := by
    unfold Session.denoted
    cases s.placeholders.size <;> rfl
  have hsum : addOffset offset (offsetOfBytes size) = .ok (offset + size.toNat) :=
    addOffset_eq_ok_iff.mpr ⟨rfl, hfits⟩
  have haddress : s.slotAddress f offset = .ok s!"rsp + {offset + size.toNat}" := by
    unfold Session.slotAddress Frame.finalSize
    rw [hsize]
    show (addOffset offset (offsetOfBytes size) >>= fun offset => _) = _
    rw [hsum]
    show Except.ok (if offset + size.toNat ≥ 0 then _ else _) = _
    rw [if_pos hlow]
  unfold Session.render
  rw [hdenoted]
  dsimp only
  rw [haddress]
  rfl

theorem Session.render_slot (hsize : (s.tree.frame f).size = some size)
    (hlow : 0 ≤ offset + size.toNat) (hhigh : offset ≤ 0) :
    s.render (.slot f offset type) = .ok (some s!"rsp + {offset + size.toNat}") := by
  apply Session.render_slot_of_fits hsize hlow
  have hlt := size.toNat_lt
  unfold FitsOffset
  omega

/-- While the body of a function runs on an unused frame, variables of open scopes never overlap,
    and calls never write into them. Once the epilogue has set the size of the frame, every variable
    that was declared has an address on the frame, below the return address. -/
theorem frame_layout_safe {r : Runner} {name : String} {parameters : List (TypeRefId × String)}
    {s s₀ s₁ s' : Session} {own : ScopeId} {f : FrameId} {trace : List (Session × FrameOp)}
    (hwf : s.tree.WellFormed) (hunused : s.tree.Unused f)
    (hscope : s.tree.functionScope? (s.engine r.engine).currentScope name = some own)
    (hframe : (s.tree.scope own).frame = some f)
    (hsmall : ∀ parameter ∈ r.parametersOf name s, parameter.type.bytes ≤ 8)
    (hprologue : r.runAction .generate (.prologue name parameters) s = .ok () s₀)
    (hbody : FrameRun r.engine f trace s₀ s₁)
    (hreach : ∀ t op, (t, op) ∈ trace → -0xffffffff ≤ (t.tree.frame f).pointer - op.reach)
    (hepilogue : r.runAction .generate .epilogue s₁ = .ok () s') :
    ∃ size : UInt32, (s'.tree.frame f).size = some size ∧
      (∀ t x type, (t, FrameOp.declare x type) ∈ trace → ∃ offset k : Int,
        s'.tree.member? (t.engine r.engine).currentScope x = some (.slot f offset type) ∧
        s'.render (.slot f offset type) = .ok (some s!"rsp + {k}") ∧ k = offset + size.toNat ∧
        0 ≤ k ∧ k + type.bytes.toNat ≤ size.toNat - 8) ∧
      (∀ t ∈ s₁ :: trace.map Prod.fst, ∀ opened,
        (t.engine r.engine).scopes = opened ++ (s.engine r.engine).scopes →
        ∀ x y : StackVariable, x.scope ∈ opened → y.scope ∈ opened → x.In t.tree f →
          y.In t.tree f → (x.scope, x.name) ≠ (y.scope, y.name) →
          ∀ byte, x.Holds size byte → ¬y.Holds size byte) ∧
      ∀ t site, (t, FrameOp.call site) ∈ trace → ∀ opened,
        (t.engine r.engine).scopes = opened ++ (s.engine r.engine).scopes →
        ∀ x : StackVariable, x.scope ∈ opened → x.In t.tree f →
          ∀ byte : Nat, byte < max (8 * site.arguments.length) 32 → ¬x.Holds size byte := by
  have hop : Win64.prologue r .generate name parameters s = .ok () s₀ := hprologue
  have hopen := Inside.prologue hwf hunused hscope hframe hsmall hop
  obtain ⟨⟨opened, visited, hend⟩, -, htrace⟩ := hopen.run hbody hreach
  obtain ⟨size, hsize, hcover, hkeeps⟩ := Win64.epilogue_eq_ok hend.lt hend.currentFrame hepilogue
  -- The scopes opened since the function was entered are the ones its layout is about.
  have hlayout : ∀ {t opened}, (∃ opened' visited', Inside r.engine f own
      (s.engine r.engine).scopes opened' visited' t) →
      (t.engine r.engine).scopes = opened ++ (s.engine r.engine).scopes →
      Layout t.tree f opened := by
    rintro t opened ⟨opened', visited', hinside⟩ hopened
    rw [List.append_cancel_right (hopened.symm.trans hinside.scopes)]
    exact hinside.layout
  refine ⟨size, hsize, ?_, ?_, ?_⟩
  · intro t x type hmem
    obtain ⟨⟨opened', visited', hinside⟩, next, hrun, hgrows, hreached⟩ := htrace _ _ hmem
    obtain ⟨id', rest', rfl⟩ := hinside.exists_cons
    obtain ⟨hin, hown⟩ := hinside.declared hrun
    have hlow := hinside.layout.stacked.le
    have hreached' : (type.bytes.toNat : Int) - (t.tree.frame f).pointer ≤
        (s₁.tree.frame f).extent.toNat := hreached
    refine ⟨(t.tree.frame f).pointer - type.bytes.toNat, _, ?_, ?_, rfl, ?_, ?_⟩
    · rw [hinside.currentScope]
      exact hkeeps.members _ _ _ (hgrows.slots _ hown hin)
    · exact Session.render_slot hsize (by omega) (by omega)
    · omega
    · omega
  · intro t ht opened hopened x y hx hy hinx hiny hne byte
    have hinside : ∃ opened' visited', Inside r.engine f own (s.engine r.engine).scopes opened'
        visited' t := by
      rcases List.mem_cons.mp ht with rfl | ht
      · exact ⟨_, visited, hend⟩
      · obtain ⟨⟨t, op⟩, hmem, rfl⟩ := List.mem_map.mp ht
        exact (htrace t op hmem).1
    exact ((hlayout hinside hopened).apart x y hx hy hinx hiny hne).not_holds
  · intro t site hmem opened hopened x hx hinx byte hlt hholds
    obtain ⟨hinside, -, -, -, hreached⟩ := htrace _ _ hmem
    have hle := (hlayout hinside hopened).stacked.le_offset hx hinx
    have hreached' : max (8 * (site.arguments.length : Int)) 32 - (t.tree.frame f).pointer ≤
        (s₁.tree.frame f).extent.toNat := hreached
    have hbyte := hholds.1
    omega

def nestedProgram : Program :=
  [.prologue "f" [(⟨0⟩, "a"), (⟨1⟩, "b")], .enterBlock, .enterBlock, .exitBlock, .exitBlock,
    .enterBlock, .exitBlock, .epilogue]

/-- A call with five arguments, one of which is in memory. -/
def nestedCall : CallSite where
  callee := .immediate .qword [.ofText "g"]
  parameters := none
  arguments :=
    [.immediate .dword [.ofText "1"], .immediate .dword [.ofText "2"],
      .immediate .qword [.ofText "3"], .memory .dword [.ofText "[rbx]"],
      .immediate .qword [.ofText "5"]]
  targets := []

/-- Variables in all blocks, and a call in the innermost one. -/
def nestedBody : List FrameOp :=
  [.declare "x" (.sized .dword), .enter, .declare "y" (.block 12), .enter,
    .declare "z" (.sized .qword), .call nestedCall, .noteCall, .leave, .leave, .reserve 24, .enter,
    .declare "y" (.sized .byte), .leave]

/-- The function is about to be generated. -/
def nestedStart : Session :=
  leaves ((EngineId.runner ⟨0⟩ 0).compile nestedProgram .resolve)
    (leaves (buildProgram [.function "f" [(.sized .dword, "a"), (.sized .qword, "b")] []])
      (leaves (startEngine defaultSections) {}))

/-- The function is open. -/
def nestedOpen : Session :=
  leaves ((EngineId.runner ⟨0⟩ 0).runAction .generate
    (.prologue "f" [(⟨0⟩, "a"), (⟨1⟩, "b")])) nestedStart

theorem reached_nestedStart : Reached [⟨0⟩] nestedStart :=
  .compile 0 nestedProgram .resolve (.build _ (.start (.new {}) rfl)) List.mem_cons_self

theorem unused_nestedStart : nestedStart.tree.Unused ⟨0⟩ :=
  .of_all (by decide +kernel) (by decide +kernel) (by decide +kernel)

theorem scope_nestedStart :
    nestedStart.tree.functionScope? (nestedStart.engine ⟨0⟩).currentScope "f" = some ⟨1⟩ := by
  decide +kernel

theorem prologue_nestedStart : (EngineId.runner ⟨0⟩ 0).runAction .generate
    (.prologue "f" [(⟨0⟩, "a"), (⟨1⟩, "b")]) nestedStart = .ok () nestedOpen :=
  eq_ok_of_succeeds (by decide +kernel)

/-- The body has run. -/
def nestedClosing : Session := leaves (FrameOp.runAll ⟨0⟩ nestedBody) nestedOpen

/-- The function is closed. -/
def nestedEnd : Session :=
  leaves ((EngineId.runner ⟨0⟩ 0).runAction .generate .epilogue) nestedClosing

/-- `z` is declared. -/
def nestedInner : Session :=
  leaves (FrameOp.run ⟨0⟩ .enter) (leaves (FrameOp.run ⟨0⟩ (.declare "y" (.block 12)))
    (leaves (FrameOp.run ⟨0⟩ .enter) (leaves (FrameOp.run ⟨0⟩ (.declare "x" (.sized .dword)))
      nestedOpen)))

theorem frame_layout_safe_nested : nestedStart.tree.WellFormed ∧ nestedStart.tree.Unused ⟨0⟩ ∧
      FrameRun ⟨0⟩ ⟨0⟩ (FrameOp.traceAll ⟨0⟩ nestedBody nestedOpen) nestedOpen nestedClosing ∧
      ∃ size, (nestedEnd.tree.frame ⟨0⟩).size = some size ∧ (∃ offset k : Int,
          nestedEnd.tree.member? ⟨3⟩ "z" = some (.slot ⟨0⟩ offset (.sized .qword)) ∧
          nestedEnd.render (.slot ⟨0⟩ offset (.sized .qword)) = .ok (some s!"rsp + {k}") ∧
          0 ≤ k ∧ k + 8 ≤ size.toNat - 8) ∧
        ∀ x y : StackVariable, x.scope ∈ [⟨3⟩, ⟨2⟩, ⟨1⟩] → y.scope ∈ [⟨3⟩, ⟨2⟩, ⟨1⟩] →
          x.In nestedInner.tree ⟨0⟩ → y.In nestedInner.tree ⟨0⟩ →
          (x.scope, x.name) ≠ (y.scope, y.name) →
          ∀ byte, x.Holds size byte → ¬y.Holds size byte := by
  have hwf := reached_nestedStart.wellFormed
  have hsmall : ∀ parameter ∈ (EngineId.runner ⟨0⟩ 0).parametersOf "f" nestedStart,
      parameter.type.bytes ≤ 8 := by decide +kernel
  have hbody : FrameOp.runAll ⟨0⟩ nestedBody nestedOpen = .ok () nestedClosing :=
    eq_ok_of_succeeds (by decide +kernel)
  have hreach : (FrameOp.traceAll ⟨0⟩ nestedBody nestedOpen).all (fun m =>
      -0xffffffff ≤ (m.1.tree.frame ⟨0⟩).pointer - m.2.reach) = true := by decide +kernel
  have hepilogue : (EngineId.runner ⟨0⟩ 0).runAction .generate .epilogue nestedClosing =
      .ok () nestedEnd := eq_ok_of_succeeds (by decide +kernel)
  have hrun := FrameRun.of_runAll ⟨0⟩ hbody
  obtain ⟨size, hsize, hdeclared, hopen, -⟩ := frame_layout_safe hwf unused_nestedStart
    scope_nestedStart (by decide +kernel) hsmall prologue_nestedStart hrun
    (fun t op hmem => by simpa using List.all_eq_true.mp hreach _ hmem) hepilogue
  have hmem : (nestedInner, FrameOp.declare "z" (.sized .qword)) ∈
      FrameOp.traceAll ⟨0⟩ nestedBody nestedOpen :=
    .tail _ (.tail _ (.tail _ (.tail _ (.head _))))
  have hcurrent : (nestedInner.engine ⟨0⟩).currentScope = ⟨3⟩ := by decide +kernel
  have hscopes : (nestedInner.engine ⟨0⟩).scopes =
      [⟨3⟩, ⟨2⟩, ⟨1⟩] ++ (nestedStart.engine ⟨0⟩).scopes := by decide +kernel
  obtain ⟨offset, k, hmember, hrender, -, hlow, hhigh⟩ := hdeclared _ _ _ hmem
  have hmember' : nestedEnd.tree.member? (nestedInner.engine ⟨0⟩).currentScope "z" = _ := hmember
  rw [hcurrent] at hmember'
  have hinner := List.mem_map_of_mem (f := Prod.fst) hmem
  dsimp only at hinner
  exact ⟨hwf, unused_nestedStart, hrun, size, hsize,
    ⟨offset, k, hmember', hrender, hlow, hhigh⟩,
    hopen nestedInner (List.mem_cons_of_mem _ hinner) _ hscopes⟩

end StagedAsm
