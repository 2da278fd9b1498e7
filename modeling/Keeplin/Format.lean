/-
The limits on the body of a note, how long a line and how many lines it may have,
and on the notes of a notebook.
-/
import Mathlib.Order.Basic
import Mathlib.Data.List.Basic

namespace Keeplin

def MAX_LINE_BYTES : Nat := 1 <<< 12

def MAX_LINES_PER_NOTE : Nat := 1 <<< 16

def MAX_NOTES_PER_NOTEBOOK : Nat := 1 <<< 24

inductive LimitViolation where
  | lineTooLong (bytes : Nat)
  | tooManyLines (lines : Nat)
  | notebookFull (notes : Nat)
deriving DecidableEq, Repr

/-- The lines between the newlines of a body; an empty body gives one. -/
def splitBody (body : String) : List String :=
  (body.toList.splitOn '\n').map String.ofList

def joinLines (contents : List String) : String :=
  String.ofList (['\n'].intercalate (contents.map String.toList))

def checkLine (content : String) : Except LimitViolation Unit :=
  if MAX_LINE_BYTES < content.utf8ByteSize then .error (.lineTooLong content.utf8ByteSize)
  else .ok ()

def checkLineCount (lines : Nat) : Except LimitViolation Unit :=
  if MAX_LINES_PER_NOTE < lines then .error (.tooManyLines lines) else .ok ()

def checkBody (body : String) : Except LimitViolation Unit :=
  if body = "" then .ok ()
  else do
    for line in splitBody body do
      checkLine line
    checkLineCount (splitBody body).length

def checkNotebookCapacity (liveNotes : Nat) : Except LimitViolation Unit :=
  if MAX_NOTES_PER_NOTEBOOK ≤ liveNotes then .error (.notebookFull liveNotes) else .ok ()

theorem joinLines_splitBody (body : String) : joinLines (splitBody body) = body := by
  have hmap : (splitBody body).map String.toList = body.toList.splitOn '\n' := by
    simp [splitBody, Function.comp_def]
  rw [joinLines, hmap, List.intercalate_splitOn, String.ofList_toList]

end Keeplin
