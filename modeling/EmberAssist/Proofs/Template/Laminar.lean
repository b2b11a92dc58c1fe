import Mathlib.Order.Lattice
import Mathlib.Data.List.Pairwise
import EmberAssist.Proofs.Position
import EmberAssist.Proofs.Template.Address

/-! Laminar trees: what a node came from lies inside what its ancestors came from, and nodes of which
neither is part of the other came from parts of the text that at most touch. -/
namespace EmberAssist.Template

/-- Parts of an ordered line, given by their two ends: offsets of a text or its positions. -/
class Stretch (ρ : Type) (α : outParam Type) where
  first : ρ → α
  last : ρ → α

instance : Stretch Span Nat := ⟨Span.start, Span.stop⟩

instance : Stretch Range Position := ⟨Range.start, Range.stop⟩

open Stretch

section
variable {ρ α : Type} [Stretch ρ α] [LinearOrder α]

/-- One of two parts ends before or where the other begins. -/
def Apart (a b : ρ) : Prop := last a ≤ first b ∨ last b ≤ first a

/-- One part lies in another. -/
def Inside (inner outer : ρ) : Prop := first outer ≤ first inner ∧ last inner ≤ last outer

theorem Inside.refl (a : ρ) : Inside a a := ⟨le_refl _, le_refl _⟩

theorem Inside.trans {a b c : ρ} (inner : Inside a b) (outer : Inside b c) : Inside a c :=
  ⟨outer.1.trans inner.1, inner.2.trans outer.2⟩

theorem Apart.symm {a b : ρ} (apart : Apart a b) : Apart b a := Or.symm apart

/-- Parts of parts that are apart are apart as well. -/
theorem Apart.mono {a b c d : ρ} (apart : Apart a b) (left : Inside c a) (right : Inside d b) :
    Apart c d :=
  apart.imp (fun before => (left.2.trans before).trans right.1)
    (fun before => (right.2.trans before).trans left.1)

end

namespace Node
variable {ρ : Type}

/-- The places of the outermost placed nodes of a tree. -/
def front (node : Node ρ) : List ρ :=
  node.fold fun range layer =>
    match range with
    | some range => [range]
    | none => layer.children.flatten

@[simp] theorem front_some (range : ρ) (layer : Layer (Node ρ)) :
    (mk (some range) layer).front = [range] := by
  rw [front, fold_mk]

@[simp] theorem front_none (layer : Layer (Node ρ)) :
    (mk none layer).front = layer.children.flatMap front := by
  rw [front, fold_mk, Layer.children_map, List.flatMap_def]
  rfl

theorem front_of_range {node : Node ρ} {range : ρ} (placed : node.range = some range) :
    node.front = [range] := by
  cases node
  cases placed
  simp

variable {α : Type} [Stretch ρ α] [LinearOrder α]

/-- Children are apart from one another, and a placed node begins no later than it ends and has all
placed nodes below it inside. -/
inductive Laminar : Node ρ → Prop where
  | mk {range : Option ρ} {layer : Layer (Node ρ)} (below : ∀ child ∈ layer.children, Laminar child)
      (apart : (layer.children.flatMap front).Pairwise Apart)
      (around : ∀ place ∈ range, first place ≤ last place ∧
        ∀ inner ∈ layer.children.flatMap front, Inside inner place) :
      Laminar (.mk range layer)

namespace Laminar
variable {node part : Node ρ} {address below : List Slot}

theorem child {slot : Slot} {child : Node ρ} (laminar : Laminar node)
    (found : node.child? slot = some child) : Laminar child := by
  cases laminar with
  | mk below apart around => exact below child (mem_children_of_child? found)

/-- Every part of a laminar tree is laminar. -/
theorem at? (laminar : Laminar node) (found : node.at? address = some part) : Laminar part := by
  induction address generalizing node with
  | nil =>
    cases found
    exact laminar
  | cons slot address ih =>
    rw [at?_cons, Option.bind_eq_some_iff] at found
    obtain ⟨child, held, found⟩ := found
    exact ih (laminar.child held) found

theorem first_le_last {place : ρ} (laminar : Laminar node) (placed : node.range = some place) :
    first place ≤ last place := by
  cases laminar with
  | mk below apart around => exact (around place placed).1

/-- A placed part lies inside one of the outermost placed nodes. -/
theorem inside_front {place : ρ} (laminar : Laminar node) (found : node.at? address = some part)
    (placed : part.range = some place) : ∃ outer ∈ node.front, Inside place outer := by
  induction address generalizing node with
  | nil =>
    cases found
    exact ⟨place, by simp [front_of_range placed], Inside.refl place⟩
  | cons slot address ih =>
    rw [at?_cons, Option.bind_eq_some_iff] at found
    obtain ⟨child, held, found⟩ := found
    obtain ⟨outer, member, inside⟩ := ih (laminar.child held) found
    cases laminar with
    | @mk range layer below apart around =>
      have inFront : outer ∈ layer.children.flatMap front :=
        List.mem_flatMap.mpr ⟨child, mem_children_of_child? held, member⟩
      cases range with
      | none => exact ⟨outer, by simpa using inFront, inside⟩
      | some range =>
        exact ⟨range, by simp, inside.trans ((around range rfl).2 outer inFront)⟩

/-- A placed node has its placed parts inside. -/
theorem inside_ancestor {place outer : ρ} (laminar : Laminar node) (around : node.range = some outer)
    (found : node.at? address = some part) (placed : part.range = some place) :
    Inside place outer := by
  obtain ⟨range, member, inside⟩ := laminar.inside_front found placed
  rw [front_of_range around, List.mem_singleton] at member
  exact member ▸ inside

/-- The placed nodes in two slots of a node are apart. -/
theorem apart_fronts {left right : Slot} {leftChild rightChild : Node ρ} {a b : ρ}
    (laminar : Laminar node) (leftFound : node.child? left = some leftChild)
    (rightFound : node.child? right = some rightChild) (different : left ≠ right)
    (leftMember : a ∈ leftChild.front) (rightMember : b ∈ rightChild.front) : Apart a b := by
  cases laminar with
  | @mk range layer below apart around =>
    have pairs : layer.slots.Pairwise fun one other =>
        ∀ a ∈ one.2.front, ∀ b ∈ other.2.front, Apart a b :=
      List.pairwise_map.mp (List.pairwise_flatMap.mp apart).2
    have : Std.Symm fun one other : Slot × Node ρ =>
        ∀ a ∈ one.2.front, ∀ b ∈ other.2.front, Apart a b :=
      ⟨fun _ _ apart a member b otherMember => (apart b otherMember a member).symm⟩
    exact pairs.forall (child?_eq_some.mp leftFound) (child?_eq_some.mp rightFound)
      (fun same => different (congrArg Prod.fst same)) a leftMember b rightMember

/-- Placed nodes of which neither is part of the other are apart. -/
theorem apart_of_unrelated {other : Node ρ} {elsewhere : List Slot} {a b : ρ}
    (laminar : Laminar node) (found : node.at? address = some part)
    (otherFound : node.at? elsewhere = some other) (placed : part.range = some a)
    (otherPlaced : other.range = some b) (notAbove : ¬ address <+: elsewhere)
    (notBelow : ¬ elsewhere <+: address) : Apart a b := by
  induction address generalizing node elsewhere with
  | nil => exact absurd List.nil_prefix notAbove
  | cons slot address ih =>
    cases elsewhere with
    | nil => exact absurd List.nil_prefix notBelow
    | cons otherSlot elsewhere =>
      rw [at?_cons, Option.bind_eq_some_iff] at found otherFound
      obtain ⟨child, held, found⟩ := found
      obtain ⟨otherChild, otherHeld, otherFound⟩ := otherFound
      by_cases same : slot = otherSlot
      · subst same
        cases held.symm.trans otherHeld
        exact ih (laminar.child held) found otherFound
          (fun above => notAbove (List.cons_prefix_cons.mpr ⟨rfl, above⟩))
          (fun below => notBelow (List.cons_prefix_cons.mpr ⟨rfl, below⟩))
      · obtain ⟨outer, member, inside⟩ := (laminar.child held).inside_front found placed
        obtain ⟨otherOuter, otherMember, otherInside⟩ :=
          (laminar.child otherHeld).inside_front otherFound otherPlaced
        exact (laminar.apart_fronts held otherHeld same member otherMember).mono inside otherInside

section Moved
variable {σ β : Type} [Stretch σ β] [LinearOrder β] {move : ρ → σ} {point : α → β}

private theorem mapRange_of_children (ordered : Monotone point)
    (firsts : ∀ place, first (move place) = point (first place))
    (lasts : ∀ place, last (move place) = point (last place)) {range : Option ρ}
    {layer : Layer (Node ρ)}
    (below : ∀ child ∈ layer.children,
      Laminar (child.mapRange move) ∧ (child.mapRange move).front = child.front.map move)
    (apart : (layer.children.flatMap front).Pairwise Apart)
    (around : ∀ place ∈ range, first place ≤ last place ∧
      ∀ inner ∈ layer.children.flatMap front, Inside inner place) :
    Laminar ((Node.mk range layer).mapRange move) ∧
      ((Node.mk range layer).mapRange move).front = (Node.mk range layer).front.map move := by
  have fronts : (layer.map (Node.mapRange move)).children.flatMap front =
      (layer.children.flatMap front).map move := by
    rw [Layer.children_map, List.flatMap_map, List.map_flatMap]
    exact List.flatMap_congr fun child member => (below child member).2
  rw [mapRange_mk]
  refine ⟨.mk ?_ ?_ ?_, ?_⟩
  · rw [Layer.children_map]
    intro _ moved
    obtain ⟨child, member, rfl⟩ := List.mem_map.mp moved
    exact (below child member).1
  · rw [fronts]
    refine List.pairwise_map.mpr (apart.imp ?_)
    intro a b apart
    simp only [Apart, firsts, lasts]
    exact apart.imp (fun before => ordered before) (fun before => ordered before)
  · intro _ moved
    obtain ⟨place, placed, rfl⟩ := Option.map_eq_some_iff.mp moved
    obtain ⟨order, inside⟩ := around place placed
    rw [firsts, lasts, fronts]
    refine ⟨ordered order, fun _ moved => ?_⟩
    obtain ⟨inner, member, rfl⟩ := List.mem_map.mp moved
    simp only [Inside, firsts, lasts]
    exact ⟨ordered (inside inner member).1, ordered (inside inner member).2⟩
  · cases range with
    | none => simpa using fronts
    | some range => simp

/-- Placing the nodes of a laminar tree in another way that keeps the order of their ends gives a
laminar tree. -/
theorem mapRange (ordered : Monotone point)
    (firsts : ∀ place, first (move place) = point (first place))
    (lasts : ∀ place, last (move place) = point (last place)) (laminar : Laminar node) :
    Laminar (node.mapRange move) := by
  have both : Laminar (node.mapRange move) ∧ (node.mapRange move).front = node.front.map move := by
    induction laminar with
    | mk below apart around ih =>
      exact mapRange_of_children ordered firsts lasts ih apart around
  exact both.1

end Moved

end Laminar

end Node

end EmberAssist.Template
