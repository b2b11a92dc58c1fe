import EmberAssist.Document.Basic

/-! The documents that are open, by their URIs. -/
namespace EmberAssist

/-- Open documents, at most one for each URI (`InMemoryDocumentStore`). -/
@[ext]
structure DocumentStore where
  documents : List Document
  distinct : (documents.map Document.uri).Nodup
deriving DecidableEq, Repr

namespace DocumentStore

/-- No document is open. -/
def empty : DocumentStore := ⟨[], List.nodup_nil⟩

instance : Inhabited DocumentStore := ⟨empty⟩

/-- Closes a document, if it is open. -/
def close (store : DocumentStore) (uri : String) : DocumentStore :=
  ⟨store.documents.filter (·.uri != uri), store.distinct.sublist (List.filter_sublist.map _)⟩

/-- A document that has been closed is not open. -/
theorem notMem_close (store : DocumentStore) (uri : String) :
    uri ∉ (store.close uri).documents.map Document.uri := by
  intro member
  obtain ⟨document, held, rfl⟩ := List.mem_map.mp member
  simpa using (List.mem_filter.mp held).2

/-- Opens a document, in place of one with the same URI (`open`). -/
def insert (store : DocumentStore) (document : Document) : DocumentStore where
  documents := document :: (store.close document.uri).documents
  distinct := List.nodup_cons.mpr ⟨store.notMem_close document.uri, (store.close document.uri).distinct⟩

/-- The open document with a URI. -/
def get? (store : DocumentStore) (uri : String) : Option Document :=
  store.documents.find? (·.uri == uri)

end DocumentStore

end EmberAssist
