import Mathlib.Tactic.Basic
import Mathlib.Data.List.Basic

/-!
# Sequences read in pieces

A queue holds sequences; a reader takes them out in order, piece by piece, and no piece goes past the
end of a sequence. `Cuts pieces acc pending` says that the pieces read so far are such a reading of the
sequences `acc` put in so far, and that `pending` is what is left of them.
-/

namespace Cut

variable {β : Type*}

/-- The pending sequences with the part `p` already read put back in front of the first one. -/
def glue (p : List β) : List (List β) → List (List β)
  | [] => []
  | r :: q => (p ++ r) :: q

/-- The pieces are the sequences `acc` in order: groups of consecutive pieces whose concatenations are
whole sequences (`whole`), then the pieces of the one that is being read (`part`). -/
def Cuts (pieces acc pending : List (List β)) : Prop :=
  ∃ (whole : List (List (List β))) (part : List (List β)),
    pieces = whole.flatten ++ part ∧ (∀ g ∈ whole, g ≠ []) ∧
    acc = whole.map List.flatten ++ glue part.flatten pending ∧ (pending = [] → part = [])

theorem cuts_nil : Cuts ([] : List (List β)) [] [] :=
  ⟨[], [], rfl, by simp, rfl, fun _ => rfl⟩

@[simp] theorem glue_nil_left (q : List (List β)) : glue [] q = q := by
  cases q with
  | nil => rfl
  | cons r q => rfl

@[simp] theorem glue_cons (p r : List β) (q : List (List β)) : glue p (r :: q) = (p ++ r) :: q := rfl

theorem glue_append {p : List β} {q : List (List β)} (h : q = [] → p = []) (x : List β) :
    glue p (q ++ [x]) = glue p q ++ [x] := by
  cases q with
  | nil => rw [h rfl]; rfl
  | cons r q => rfl

theorem flatten_glue {p : List β} {q : List (List β)} (h : q = [] → p = []) :
    (glue p q).flatten = p ++ q.flatten := by
  cases q with
  | nil => rw [h rfl]; rfl
  | cons r q => simp

variable {pieces acc pending : List (List β)}

/-- A sequence is put in. -/
theorem Cuts.push (h : Cuts pieces acc pending) (x : List β) :
    Cuts pieces (acc ++ [x]) (pending ++ [x]) := by
  obtain ⟨whole, part, hp, hne, ha, hpart⟩ := h
  have hpart' : pending = [] → part.flatten = [] := fun hq => by rw [hpart hq]; rfl
  refine ⟨whole, part, hp, hne, ?_, fun hq => absurd hq (by simp)⟩
  rw [ha, glue_append hpart', List.append_assoc]

/-- The rest of the first pending sequence is read. -/
theorem Cuts.whole {r : List β} {q : List (List β)} (h : Cuts pieces acc (r :: q)) :
    Cuts (pieces ++ [r]) acc q := by
  obtain ⟨whole, part, hp, hne, ha, -⟩ := h
  refine ⟨whole ++ [part ++ [r]], [], ?_, ?_, ?_, fun _ => rfl⟩
  · simp [hp]
  · intro g hg
    rcases List.mem_append.mp hg with hg | hg
    · exact hne g hg
    · rw [List.mem_singleton.mp hg]
      simp
  · simp [ha]

/-- A part of the first pending sequence is read. -/
theorem Cuts.part {p r : List β} {q : List (List β)} (h : Cuts pieces acc ((p ++ r) :: q)) :
    Cuts (pieces ++ [p]) acc (r :: q) := by
  obtain ⟨whole, part, hp, hne, ha, -⟩ := h
  refine ⟨whole, part ++ [p], ?_, hne, ?_, fun hq => absurd hq (by simp)⟩
  · rw [hp, List.append_assoc]
  · simp [ha]

/-- Nothing is lost and nothing is added. -/
theorem Cuts.flatten_eq (h : Cuts pieces acc pending) :
    acc.flatten = pieces.flatten ++ pending.flatten := by
  obtain ⟨whole, part, hp, -, ha, hpart⟩ := h
  have hpart' : pending = [] → part.flatten = [] := fun hq => by rw [hpart hq]; rfl
  rw [ha, hp, List.flatten_append, List.flatten_append, flatten_glue hpart', List.append_assoc,
    List.flatten_flatten]

end Cut
