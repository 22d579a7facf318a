import SqlDump.Proofs.Pipeline.Log
import SqlDump.Proofs.Session.Streaming

/-!
# Sessions that were used before their input

A warning given to a session and a text written ahead of the stream show in the
report and nowhere else: the cleaned stream is that of a fresh session.
-/

namespace SqlDump

namespace Session

/-- What was pushed in pieces is written and reported like the whole. -/
theorem finish_pushAll (session : Session) (chunks : List Bytes)
    (settled : session.Settled) :
    (session.pushAll chunks).2.flatten ++
      (session.pushAll chunks).1.finish.2.flatten =
        (session.conclude chunks.flatten).1 ∧
      (session.pushAll chunks).1.finish.1 =
        (session.conclude chunks.flatten).2 := by
  obtain ⟨streamed, stillSettled⟩ := session.conclude_pushAll chunks settled
  rw [streamed, ← finish_eq _ stillSettled]
  exact ⟨rfl, rfl⟩

theorem finish_push (session : Session) (input : Bytes)
    (settled : session.Settled) :
    (session.push input).1.finish.1 = (session.conclude input).2 := by
  simpa [pushAll] using (session.finish_pushAll [input] settled).2

theorem conclude_writePrelude (session : Session) (prelude : Text)
    (rest : Bytes) :
    (session.writePrelude prelude).1.conclude rest =
      ((session.conclude rest).1,
        { (session.conclude rest).2 with
          bytesWritten := (session.conclude rest).2.bytesWritten +
            prelude.size }) := by
  simp only [conclude, concludeText, withInput, writePrelude, foldl_warn, stats]
  simp [Nat.add_right_comm]

theorem conclude_foldl_warn (session : Session) (warnings : List Warning)
    (rest : Bytes) :
    ((warnings.foldl warn session).conclude rest).1 =
      (session.conclude rest).1 := by
  have same (log : WarningLog) (units : List StatementUnit) :
      ((session.pipeline.withLog log).processAll units).2 =
        (session.pipeline.processAll units).2 := by
    obtain ⟨raised, -, outcome⟩ := session.pipeline.processAll_withLog units
    rw [outcome]
  rw [foldl_warn, PipelineState.foldl_warn]
  exact congrArg List.flatten (same _ _)

theorem settled_foldl_warn (session : Session) (warnings : List Warning)
    (settled : session.Settled) : (warnings.foldl warn session).Settled := by
  rw [foldl_warn]
  exact settled

theorem bytesRead_conclude (session : Session) (rest : Bytes) :
    (session.conclude rest).2.bytesRead = session.bytesRead + rest.length := by
  simp only [conclude, concludeText, withInput, foldl_warn, stats]

end Session

theorem cleanBytes_eq_conclude (options : CleanOptions) (catalog : Catalog)
    (input : Bytes) :
    cleanBytes options catalog input = (Session.start options catalog).conclude
      input := by
  rw [cleanBytes_eq_cleanWhole, Session.conclude_start]

end SqlDump
