import DocuAI.Documents.Errors

/-!
# Access to documents

Every query is scoped by the user's id and excludes deleted rows.
-/

namespace DocuAI

namespace DocumentsService

/-- Loads a live document of the user, or fails with the safe error. -/
def getOwned (documents : Table Document.id) (userId documentId : ℕ) :
    Except AppException Document :=
  let found := (documents.find documentId).filter fun document =>
    document.userId = userId && document.deletedAt.isNone
  match found with
  | some document => .ok document
  | none => .error documentNotFound

/-- Exactly the live documents of the user are found. -/
theorem getOwned_eq_ok_iff {documents : Table Document.id} {userId documentId : ℕ}
    {document : Document} :
  getOwned documents userId documentId = .ok document
    ↔ documents.find documentId = some document ∧ document.userId = userId
      ∧ document.deletedAt = none
  := by
  unfold getOwned
  simp only
  split
  · rename_i found hfound
    simp only [Option.filter_eq_some_iff, Bool.and_eq_true, decide_eq_true_eq,
      Option.isNone_iff_eq_none] at hfound
    constructor
    · rintro ⟨⟩
      exact hfound
    · rintro ⟨hdocument, -, -⟩
      rw [hdocument] at hfound
      rw [Option.some.inj hfound.1]
  · rename_i hfound
    simp only [Option.filter_eq_none_iff, Bool.and_eq_true, decide_eq_true_eq,
      Option.isNone_iff_eq_none] at hfound
    constructor
    · rintro ⟨⟩
    · rintro ⟨hdocument, howner, hlive⟩
      exact absurd ⟨howner, hlive⟩ (hfound document hdocument)

end DocumentsService

end DocuAI
