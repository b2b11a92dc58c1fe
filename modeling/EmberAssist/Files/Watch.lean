import EmberAssist.Document.Language

/-! Batches of changed files. Only files that matter are told on. -/
namespace EmberAssist.Watch

/-- The paths of a batch that matter, each once, in the order of their spellings. -/
def relevant (batch : List FilePath) : List FilePath :=
  (batch.filter isWatchedFile).eraseDups.mergeSort fun a b => a.text ≤ b.text

/-- The batches that are told on: what matters in each of them, unless nothing does (`_watch`). -/
def reports (batches : List (List FilePath)) : List (List FilePath) :=
  (batches.map relevant).filter (!·.isEmpty)

end EmberAssist.Watch
