import Mathlib.Data.List.Induction
import TapeMachine.Settings.Layer

/-!
# What layers come to

Layers of settings are laid one over another, the first one lowest.  Each parameter then has the
value of the last layer that has one for it, whatever these layers say about the others, and its
default if there is no such layer.  It does not matter which neighbouring layers are laid over one
another first.
-/

namespace TapeMachine

namespace Settings

def ofLayers (layers : List Settings) : Settings :=
  layers.foldl overlay {}

/-- The value of the last layer that has one in the field, or the default if none has one. -/
inductive Topmost {α : Type} (field : Settings → Option α) (default : α) (layers : List Settings) :
    α → Prop where
  | layer {below above : List Settings} {top : Settings} {value : α}
      (hsplit : layers = below ++ top :: above) (htop : field top = some value)
      (habove : ∀ s ∈ above, field s = none) : Topmost field default layers value
  | unset (h : ∀ s ∈ layers, field s = none) : Topmost field default layers default

@[simp] theorem overlay_empty (s : Settings) : s.overlay {} = s := by
  simp [overlay]

theorem ofLayers_concat (layers : List Settings) (s : Settings) :
    ofLayers (layers ++ [s]) = (ofLayers layers).overlay s := by
  rw [ofLayers, List.foldl_append]
  rfl

theorem ofLayers_append (layers more : List Settings) :
    ofLayers (layers ++ more) = (ofLayers layers).overlay (ofLayers more) := by
  induction more using List.reverseRecOn with
  | nil => rw [List.append_nil, ofLayers, ofLayers, List.foldl_nil, overlay_empty]
  | append_singleton more s ih =>
      rw [← List.append_assoc, ofLayers_concat, ofLayers_concat, ih, overlay_assoc]

/-- Groups of layers may be laid together first. -/
theorem ofLayers_map_ofLayers (groups : List (List Settings)) :
    ofLayers (groups.map ofLayers) = ofLayers groups.flatten := by
  induction groups using List.reverseRecOn with
  | nil => rfl
  | append_singleton groups group ih =>
      rw [List.map_append, List.map_singleton, ofLayers_concat, ih, List.flatten_concat,
        ofLayers_append]

section Field

variable {α : Type} {field : Settings → Option α} {default value : α} {layers : List Settings}

theorem Topmost.concat_of_none (h : Topmost field default layers value) {s : Settings}
    (hs : field s = none) : Topmost field default (layers ++ [s]) value := by
  cases h with
  | @layer below above top _ hsplit htop habove =>
      have hsplit' : layers ++ [s] = below ++ top :: (above ++ [s]) := by
        rw [hsplit, List.append_assoc, List.cons_append]
      refine .layer hsplit' htop ?_
      rw [List.forall_mem_append]
      exact ⟨habove, by simpa using hs⟩
  | unset h =>
      apply Topmost.unset
      rw [List.forall_mem_append]
      exact ⟨h, by simpa using hs⟩

theorem topmost_getD (hopen : field {} = none)
    (hoverlay : ∀ lower upper, field (lower.overlay upper) = (field upper).or (field lower))
    (default : α) (layers : List Settings) :
    Topmost field default layers ((field (ofLayers layers)).getD default) := by
  induction layers using List.reverseRecOn with
  | nil =>
      have hnone : field (ofLayers []) = none := hopen
      rw [hnone, Option.getD_none]
      exact .unset (by simp)
  | append_singleton layers s ih =>
      rw [ofLayers_concat, hoverlay]
      cases hs : field s with
      | none =>
          rw [Option.none_or]
          exact ih.concat_of_none hs
      | some value =>
          rw [Option.some_or, Option.getD_some]
          exact .layer rfl hs (by simp)

end Field

end Settings

end TapeMachine
