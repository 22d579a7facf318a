import SqlDump.Proofs.Offset.Scan
import SqlDump.Proofs.Text.Trim
import SqlDump.Unwrap

/-!
# Taking guards off by bytes

The content of a guard is cut out of its text by two byte offsets, and the
blanks behind a freed statement begin where its code ends.  Both are cuts
between characters, so the unwrapper never stops.
-/

namespace SqlDump

open Text

namespace Offset

def reattach (unwrapper : Unwrapper) (body rest : Text) :
    Checked (Unwrapper × Text) := do
  let code := body.trimEnd
  let blanks ← body.since code.size
  let counted := { unwrapper with
    pending := .none
    reattached := unwrapper.reattached + 1 }
  let statement := if code.endsWith [';'] then body else code ++ ';' :: blanks
  if counted.collapse = .off ∨ blanks.endsWith ['\n'] = false then
    .ok (counted, statement ++ rest)
  else if rest = [] then .ok ({ counted with pending := .lineBreak }, statement)
  else
    let (settled, kept) := counted.dropLineBreak rest
    .ok (settled, statement ++ kept)

def acceptText (unwrapper : Unwrapper) (text : Text) :
    Checked (Unwrapper × Text) :=
  match text, unwrapper.pending with
  | ';' :: tail, .body body => reattach unwrapper body tail
  | _, _ => .ok (unwrapper.acceptText text)

def acceptGuard (unwrapper : Unwrapper) (raw : Text)
    (version start stop : Nat) : Checked (Unwrapper × Text) :=
  let held := Unwrapper.heldBack unwrapper.pending
  if shouldUnwrap version unwrapper.threshold then do
    let inner ← raw.between start stop
    .ok ({ unwrapper with
      pending := .body (dropEndWhile isPadding (inner.dropWhile isPadding))
      unwrapped := unwrapper.unwrapped + 1 }, held)
  else
    .ok ({ unwrapper with pending := .none, kept := unwrapper.kept + 1 },
      held ++ raw)

def accept (unwrapper : Unwrapper) : Segment.Piece → Checked (Unwrapper × Text)
  | .text text => acceptText unwrapper text
  | .guard raw version start stop _ =>
      acceptGuard unwrapper raw version start stop

def acceptAll (unwrapper : Unwrapper) :
    List Segment.Piece → Checked (Unwrapper × Text)
  | [] => .ok (unwrapper, [])
  | piece :: pieces => do
      let (accepted, first) ← accept unwrapper piece
      let (last, rest) ← acceptAll accepted pieces
      .ok (last, first ++ rest)

private theorem reattach_eq (unwrapper : Unwrapper) (body rest : Text) :
    reattach unwrapper body rest = .ok (unwrapper.reattach body rest) := by
  have cut : body.since body.trimEnd.size =
      .ok (body.drop body.trimEnd.length) := by
    have parts := since_append body.trimEnd (body.drop body.trimEnd.length)
    rwa [← (trimEnd_append_drop body).1] at parts
  simp only [reattach, cut, Checked.ok_bind, Unwrapper.reattach,
    Unwrapper.terminated]
  split
  · rfl
  · split <;> rfl

private theorem acceptText_eq (unwrapper : Unwrapper) (text : Text) :
    acceptText unwrapper text = .ok (unwrapper.acceptText text) := by
  unfold acceptText
  split
  · next tail body pending =>
      rw [reattach_eq, Unwrapper.acceptText, pending]
      simp
  · rfl

private theorem acceptGuard_eq (unwrapper : Unwrapper) (guard : Guard) :
    acceptGuard unwrapper guard.raw guard.version guard.opening.size
        (guard.opening ++ guard.inner).size =
      .ok (unwrapper.acceptGuard guard) := by
  have cut :
      guard.raw.between guard.opening.size (guard.opening ++ guard.inner).size =
        .ok guard.inner := by
    have parts := between_append guard.opening guard.inner closingMarker
    rwa [← List.append_assoc] at parts
  simp only [acceptGuard, cut, Checked.ok_bind, Unwrapper.acceptGuard,
    Unwrapper.strippedInner]
  split <;> rfl

private theorem accept_eq (unwrapper : Unwrapper) (segment : Segment) :
    accept unwrapper segment.piece = .ok (unwrapper.accept segment) := by
  cases segment with
  | text text => exact acceptText_eq unwrapper text
  | guard guard line => exact acceptGuard_eq unwrapper guard

/-- The pieces of a scan are unwrapped without a fault, like the segments that
they are. -/
theorem acceptAll_eq (unwrapper : Unwrapper) (segments : List Segment) :
    acceptAll unwrapper (segments.map Segment.piece) =
      .ok (unwrapper.acceptAll segments) := by
  induction segments generalizing unwrapper with
  | nil => rfl
  | cons segment segments ih =>
      simp only [List.map_cons, acceptAll, accept_eq, Checked.ok_bind, ih,
        Unwrapper.acceptAll]

end Offset

end SqlDump
