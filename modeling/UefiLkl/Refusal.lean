import UefiLkl.OpenRun
set_option autoImplicit false

/-!
Names that the kernel refuses to resolve, and those of them that `RealPath` resolves
nevertheless.
-/

namespace UefiLkl
open Interaction PathWalk

/-- The kernel does not get to an object: a component is missing, is looked up in something
that is no directory, or needs one link too many. -/
def Refused (F : FsTree) (name : Bytes) : Prop :=
  (walk F.tree ⟨true, true⟩ .unlimited 40 [] (components name)).path = none

/-- The kernel stops at something that is no directory, and only there: if every file were an
empty directory the way would lead on to `q`, without a text of `PATH_MAX` bytes. As an empty
directory has no names, what comes right after a file is `.`, `..` or nothing. -/
structure Overlooked (F : FsTree) (name : Bytes) (q : List Name) : Prop where
  absolute : name.head? = some slash
  stopped : walk F.tree ⟨true, true⟩ .unlimited 40 [] (components name) = .fail .notDir
  leads : walk F.tree.emptied ⟨true, true⟩ realPathLimits 40 [] (components name) = .found q

section Names

variable {F : FsTree} {name : Bytes} {q : List Name}

theorem realPathWalk_emptied (F : FsTree) (name : Bytes) :
    walk F.tree.emptied ⟨true, true⟩ realPathLimits 40 [] (components name) =
      realPathWalk F 40 [] name :=
  walk_emptied 40 [] (components name) F.tree.canonical_root

theorem overlooked_iff : Overlooked F name q ↔ Refused F name ∧ realPathResult F name = some q := by
  constructor
  · rintro ⟨habs, hstop, hleads⟩
    rw [realPathWalk_emptied] at hleads
    refine ⟨?_, ?_⟩
    · rw [Refused, hstop]
      rfl
    · rw [realPathResult, if_pos habs, hleads]
      rfl
  · rintro ⟨hrefused, hresult⟩
    obtain ⟨habs, hwalk⟩ := walk_of_realPathResult hresult
    refine ⟨habs, ?_, (realPathWalk_emptied F name).trans hwalk⟩
    -- without the limits the lenient walk takes the same way
    have hunlimited : walk F.tree ⟨false, true⟩ .unlimited 40 [] (components name) = .found q := by
      have hshort : walk F.tree ⟨false, true⟩ realPathLimits 40 [] (components name) ≠
          .fail .tooLong := by
        rw [realPathWalk] at hwalk
        rw [hwalk]
        simp
      rw [← walk_limits 40 [] (components name) hshort]
      exact hwalk
    rcases walk_strict 40 [] (components name) hunlimited with hfound | hstop
    · rw [Refused, hfound] at hrefused
      cases hrefused
    · exact hstop

end Names

section Calls

variable {k : Linux} {name : Bytes}

theorem realPath_none_iff (k : Linux) (h0 : 0 ∉ name) :
    Linux.faulty.Always (realPath (some name) none) (fun r _ => r = none) k ↔
      realPathResult k.fs name = none := by
  constructor
  · intro h
    have hnone := Linux.always_run h
    have hrun := (realPath_run k h0).1
    rw [hnone, Option.map_none] at hrun
    exact Option.map_eq_none_iff.mp hrun.symm
  · intro h
    refine (realPath_always_result k h0).mono ?_
    rintro r k' ⟨-, ⟨-, hr⟩ | hr⟩
    · exact hr
    · rw [h, Option.map_none, Option.map_eq_none_iff] at hr
      exact hr

theorem lklOpen_read_fails_iff (k : Linux) (parent : LklIfile) (fileName : List UInt16)
    (attributes : UInt64) :
    Linux.faulty.Always (lklOpen parent (some fileName) EFI_FILE_MODE_READ attributes)
        (fun r _ => r.1 ≠ .success) k ↔
      ∀ q, realPathResult k.fs (openPath parent fileName) = some q →
        ¬startsWith (render q) parent.volume.lklMountPoint = true := by
  have hflags := openFlags_read parent.volume.readOnly attributes
  have hcreate : createMode EFI_FILE_MODE_READ = false := by decide
  constructor
  · intro h q hq hpre
    have hrun := Linux.always_run h
    obtain ⟨n, hn⟩ := PathTree.Canonical.node_isSome (realPathResult_canonical hq)
    rw [ne_eq, lklOpen_success_iff hflags hcreate] at hrun
    exact hrun ⟨q, n, hq, hpre, hn, fun hwrite => absurd hwrite (by decide)⟩
  · intro h
    have hdone : ∀ (k : Linux) (l : OpenLocals) (status : EfiStatus), status ≠ .success →
        Linux.faulty.Always (openDone l status none) (fun r _ => r.1 ≠ .success) k := by
      intro k l status hstatus
      refine (openDone_ends_with l status none).always.mono ?_
      rintro r _ rfl
      exact hstatus
    unfold lklOpen
    dsimp only
    rw [hflags]
    dsimp only
    apply Linux.always_allocatePool
    swap
    · exact hdone _ _ _ EfiStatus.noConfusion
    apply Linux.always_allocatePool
    swap
    · exact hdone _ _ _ EfiStatus.noConfusion
    dsimp only
    rw [if_neg (by simp [hcreate])]
    refine always_realPath (nul_not_mem_openPath parent fileName) ?_ ?_
    · intro k' _
      exact hdone _ _ _ EfiStatus.noConfusion
    · intro k' ptr q _ hq
      dsimp only
      unfold openFile
      rw [if_pos (by simpa using h q hq)]
      exact hdone _ _ _ EfiStatus.noConfusion

/-- `RealPath` fails on every name that the kernel refuses, and reading is refused there,
unless the name is overlooked. -/
theorem refused_iff_not_overlooked (k : Linux) (name : CString) (parent : LklIfile)
    (fileName : List UInt16) (attributes : UInt64) :
    ((Refused k.fs name →
        Linux.faulty.Always (realPath (some name) none) (fun r _ => r = none) k) ↔
      ¬∃ q, Overlooked k.fs name q) ∧
    ((Refused k.fs (openPath parent fileName) →
        Linux.faulty.Always (lklOpen parent (some fileName) EFI_FILE_MODE_READ attributes)
          (fun r _ => r.1 ≠ .success) k) ↔
      ¬∃ q, Overlooked k.fs (openPath parent fileName) q ∧
        startsWith (render q) parent.volume.lklMountPoint = true) := by
  rw [realPath_none_iff k name.property, lklOpen_read_fails_iff]
  simp only [overlooked_iff, not_exists, not_and, and_imp]
  constructor
  · constructor
    · intro h q hrefused hq
      rw [h hrefused] at hq
      cases hq
    · intro h hrefused
      cases hq : realPathResult k.fs name with
      | none => rfl
      | some q => exact absurd hq (h q hrefused)
  · exact ⟨fun h q hrefused hq => h hrefused q hq, fun h hrefused q hq => h q hrefused hq⟩

/-- `a/..` leads from a file to its directory, and opening `a\` opens the file. -/
theorem realPath_overlooks :
    Refused fileKernel.fs (ascii ['/', 'm', 'n', 't', '/', '1', '/', 'a', '/', '.', '.']) ∧
      ¬Linux.faulty.Always
        (realPath (some (ascii ['/', 'm', 'n', 't', '/', '1', '/', 'a', '/', '.', '.'])) none)
        (fun r _ => r = none) fileKernel ∧
      Refused fileKernel.fs (openPath rootHandle [0x61, 0x5c]) ∧
      ¬Linux.faulty.Always (lklOpen rootHandle (some [0x61, 0x5c]) EFI_FILE_MODE_READ 0)
        (fun r _ => r.1 ≠ .success) fileKernel := by
  refine ⟨by unfold Refused; decide, fun h => ?_, by unfold Refused; decide, fun h => ?_⟩
  · have hrun := Linux.always_run h
    revert hrun
    decide
  · have hrun := Linux.always_run h
    revert hrun
    decide

end Calls

end UefiLkl
