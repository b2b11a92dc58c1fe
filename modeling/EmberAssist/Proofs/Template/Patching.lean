import EmberAssist.Proofs.Template.Placement
import EmberAssist.Proofs.Template.SimulationBlocks

/-! The tree of a patched text. It is the tree of the text before, moved, and its nodes are found
where they were. -/
namespace EmberAssist.Template.Typing.Target

variable {t : Typing} (aim : t.Target) {tree child node : Node Span}
variable {address : List Slot} {slot : Slot}

private theorem endsBody_of_atEnd {input : Input} (ends : input.atEnd = true) :
    input.endsBody = true := by
  simp [Input.endsBody, ends]

theorem atEnd_of_rest {input : Input} : input.atEnd = true ↔ input.rest = [] :=
  List.isEmpty_iff

/-- Typing into a token of a template moves its tree. -/
theorem parseSpans_patched (parsed : parseSpans t.text = .ok tree) (holds : tree.Holds aim.holder) :
    parseSpans t.patched = .ok (aim.move tree) := by
  obtain ⟨statements, stop, reads, ends, rfl⟩ := parseSpans_eq_ok.mp parsed
  have start := Carried.ofText t
  have among : aim.Among (.list statements) := by
    rcases aim.below rfl (.inr holds) with invoked | ⟨child, member, held⟩
    · cases invoked
    · exact ⟨child, by simpa using member, held⟩
  have late := (aim.within reads among).2
  have meant : Production.body.Meant t stop := by
    intro reached carried
    refine endsBody_of_atEnd ?_
    rw [atEnd_of_rest] at ends ⊢
    cases carried with
    | ahead before reach =>
      have nonempty := aim.quiet.start_lt_stop
      simp only at late
      omega
    | behind past => exact ends
  obtain ⟨reached, again, last⟩ := aim.retyped reads start (.inr among) meant
  have deep : depthFor t.text.length ≤ depthFor t.patched.length := by
    simp only [depthFor, text, patched, List.length_append, length_retyped]
    omega
  have given : body _ _ = _ := gives_of_reads again deep
  refine parseSpans_eq_ok.mpr ⟨_, reached, (reads_body _).1 given, ?_, ?_⟩
  · cases last with
    | ahead before reach =>
      have nonempty := aim.quiet.start_lt_stop
      simp only at late
      omega
    | behind past => exact ends
  · exact retype_between aim.quiet start last rfl

/-- What is found in a tree is found at the same place after typing. -/
theorem child?_move (held : node.child? slot = some child) :
    (aim.move node).child? slot = some (aim.move child) := by
  rw [Node.child?_eq_some, move, layer_retype (Node.spelling?_of_child? held), Layer.slots_map]
  exact List.mem_map.mpr ⟨_, Node.child?_eq_some.mp held, rfl⟩

theorem at?_move (found : tree.at? address = some node) :
    (aim.move tree).at? address = some (aim.move node) := by
  induction address generalizing tree with
  | nil =>
    cases found
    rfl
  | cons slot address ih =>
    rw [Node.at?_cons, Option.bind_eq_some_iff] at found ⊢
    obtain ⟨child, held, found⟩ := found
    exact ⟨_, aim.child?_move held, ih found⟩

end EmberAssist.Template.Typing.Target
