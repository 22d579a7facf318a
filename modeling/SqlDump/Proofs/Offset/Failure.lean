import SqlDump.Proofs.Offset.Run

/-!
# Failures of the counter

A counter that fails at some depth can be replaced by one that does not.  Until
the first failure the two run alike, so what holds of every run with a counter
that never fails leaves only one fault: that of the counter.
-/

namespace SqlDump

namespace DepthCounter

def mended (counter : DepthCounter) : DepthCounter := fun depth =>
  match counter depth with
  | .ok after => .ok after
  | .error _ => .ok 0

private theorem mended_total (counter : DepthCounter) :
    counter.mended.Total := by
  intro depth
  unfold mended
  split <;> exact ⟨_, rfl⟩

/-- The first run is the second one, or it ends where its counter fails. -/
def Mends {α : Type} (counter : DepthCounter) (run mended : Checked α) : Prop :=
  run = mended ∨ ∃ depth fault, counter depth = .error fault ∧
  run = .error fault

variable {α β σ : Type} {counter : DepthCounter}

theorem Mends.refl (run : Checked α) : Mends counter run run :=
  .inl rfl

private theorem mends_mended (counter : DepthCounter) (depth : Nat) :
    Mends counter (counter depth) (counter.mended depth) := by
  unfold mended
  split
  · next counted => exact .inl counted
  · next fault failed => exact .inr ⟨depth, fault, failed, failed⟩

theorem Mends.bind {first firstMended : Checked α}
    {next nextMended : α → Checked β} (mends : Mends counter first firstMended)
    (later : ∀ value, Mends counter (next value) (nextMended value)) :
    Mends counter (first >>= next) (firstMended >>= nextMended) := by
  rcases mends with rfl | ⟨depth, fault, failed, rfl⟩
  · cases first with
    | error fault => exact .refl _
    | ok value => exact later value
  · exact .inr ⟨depth, fault, failed, rfl⟩

theorem Mends.behind {next nextMended : α → Checked β} (first : Checked α)
    (later : ∀ value, Mends counter (next value) (nextMended value)) :
    Mends counter (first >>= next) (first >>= nextMended) :=
  (Mends.refl first).bind later

theorem Mends.before {first firstMended : Checked α}
    (mends : Mends counter first firstMended) (next : α → Checked β) :
    Mends counter (first >>= next) (firstMended >>= next) :=
  mends.bind fun value => .refl (next value)

theorem Mends.walk {turn turnMended : σ → Nat → Checked (Turn σ α)}
    {length : Nat} {last : σ → Nat → α}
    (mends : ∀ state place,
      Mends counter (turn state place) (turnMended state place)) (state : σ)
    (place : Nat) :
    Mends counter (SqlDump.walk length turn last state place)
      (SqlDump.walk length turnMended last state place) := by
  induction bound : length - place using Nat.strongRecOn
    generalizing state place with
  | ind count ih =>
    unfold SqlDump.walk
    by_cases within : place < length
    · rw [if_pos within, if_pos within]
      rcases mends state place with same | ⟨depth, fault, failed, ends⟩
      · rw [same]
        cases turnMended state place with
        | error fault => exact .refl _
        | ok turned =>
            cases turned with
            | stop answer => exact .refl _
            | goOn next taken =>
                by_cases positive : 0 < taken
                · have shorter : length - (place + taken) < count := by omega
                  have further := ih _ shorter next (place + taken) rfl
                  simpa only [if_pos positive] using further
                · simpa only [if_neg positive] using .refl _
      · rw [ends]
        exact .inr ⟨depth, fault, failed, rfl⟩
    · rw [if_neg within, if_neg within]
      exact .refl _

end DepthCounter

open DepthCounter

variable {counter : DepthCounter}

namespace Lexer

theorem openChecked_mends (lexer : Lexer) :
    Mends counter (lexer.openChecked counter)
      (lexer.openChecked counter.mended) :=
  (mends_mended counter lexer.depth).before _

private theorem slashChecked_mends (lexer : Lexer) (octets : Text) (place : Nat)
    (atEnd : Bool) :
    Mends counter (lexer.slashChecked counter octets place atEnd)
      (lexer.slashChecked counter.mended octets place atEnd) := by
  unfold slashChecked
  split
  · exact .refl _
  · split
    · split
      · refine .behind _ fun marker => ?_
        cases marker with
        | plain => exact lexer.openChecked_mends
        | guard count => exact .refl _
        | bare => exact .refl _
        | needMore => exact .refl _
      · exact lexer.openChecked_mends
    · exact .refl _

theorem plainChecked_mends (lexer : Lexer) (octets : Text) (place : Nat)
    (atEnd : Bool) (octet : Char) :
    Mends counter (lexer.plainChecked counter octets place atEnd octet)
      (lexer.plainChecked counter.mended octets place atEnd octet) := by
  unfold plainChecked
  split
  · exact .refl _
  · split
    · exact lexer.slashChecked_mends octets place atEnd
    · exact .refl _

theorem stepChecked_mends (lexer : Lexer) (octets : Text) (place : Nat)
    (atEnd : Bool) :
    Mends counter (lexer.stepChecked counter octets place atEnd)
      (lexer.stepChecked counter.mended octets place atEnd) := by
  unfold stepChecked
  refine .behind _ fun octet => ?_
  split
  · exact .refl _
  · exact .refl _
  · exact lexer.plainChecked_mends octets place atEnd octet
  · exact lexer.plainChecked_mends octets place atEnd octet

end Lexer

namespace Offset

theorem statementOffset_mends (text : Text) :
    Mends counter (statementOffset counter text)
      (statementOffset counter.mended text) := by
  refine .walk (fun lexer place => .behind _ fun octet => ?_) _ _
  split
  · exact .refl _
  · exact (lexer.stepChecked_mends _ place true).before _

private theorem findTopLevel?_mends (target : Char) (text : Text) :
    Mends counter (findTopLevel? counter target text)
      (findTopLevel? counter.mended target text) := by
  refine .walk (fun lexer place => .behind _ fun octet => ?_) _ _
  split
  · exact .refl _
  · exact (lexer.stepChecked_mends _ place true).before _

private theorem matchingParenthesis?_mends (text : Text) (opening : Nat) :
    Mends counter (matchingParenthesis? counter text opening)
      (matchingParenthesis? counter.mended text opening) := by
  refine .walk (fun state place => .behind _ fun octet => .behind _ fun depth =>
    ?_) _ _
  split
  · exact .refl _
  · exact (state.1.stepChecked_mends _ place true).before _

private theorem guardBehind_mends (text : Text) (stepped : Step × Lexer) :
    Mends counter (guardBehind counter text stepped)
      (guardBehind counter.mended text stepped) := by
  unfold guardBehind
  split
  · refine .behind _ fun digits => .walk (fun lexer place => ?_) _ _
    exact (lexer.stepChecked_mends _ place false).before _
  · exact .refl _
  · exact .refl _

theorem scanGuard_mends (text : Text) :
    Mends counter (scanGuard counter text) (scanGuard counter.mended text) := by
  unfold scanGuard
  split
  · exact .refl _
  · exact (Lexer.stepChecked_mends _ _ 0 false).bind (guardBehind_mends text)

theorem skipGuard_mends (text : Text) (offset : Nat) :
    Mends counter (skipGuard counter text offset)
      (skipGuard counter.mended text offset) := by
  refine .behind _ fun body => (scanGuard_mends body).bind fun places => ?_
  cases places with
  | notGuard => exact .refl _
  | incomplete => exact .refl _
  | complete start stop version finish =>
      exact .behind _ fun behind => (statementOffset_mends behind).before _

theorem statementPlace_mends (text : Text) :
    Mends counter (statementPlace counter text)
      (statementPlace counter.mended text) := by
  refine (statementOffset_mends text).bind fun offset =>
    .walk (fun _ place => ?_) _ _
  exact (skipGuard_mends text place).before _

private theorem firstKeyword_mends (body : Text) :
    Mends counter (firstKeyword counter body)
      (firstKeyword counter.mended body) := by
  refine (scanGuard_mends body).bind fun places => ?_
  cases places with
  | notGuard => exact .refl _
  | incomplete => exact .refl _
  | complete start stop version finish =>
      exact .behind _ fun inner => (statementOffset_mends inner).before _

private theorem planBehind_mends (body : Text) (start : Nat)
    (info : TableInfo) :
    Mends counter (planBehind counter body start info)
      (planBehind counter.mended body start info) := by
  refine .behind _ fun behind => .behind _ fun line => .before ?_ _
  exact (findTopLevel?_mends ';' line).before _

private theorem planAdditions_mends (body : Text) (nameEnd : Nat)
    (info : TableInfo) :
    Mends counter (planAdditions counter body nameEnd info)
      (planAdditions counter.mended body nameEnd info) := by
  refine .behind _ fun behindName => .behind _ fun blanks => ?_
  split
  · refine (matchingParenthesis?_mends body _).bind fun closing => ?_
    cases closing with
    | none => exact .refl _
    | some closing => exact planBehind_mends body (closing + 1) info
  · exact .refl _

private theorem augment_mends (state : PipelineState) (text : Text)
    (offset : Nat) (body : Text) (create : Ddl.CreateTable) :
    Mends counter (augment counter state text offset body create)
      (augment counter.mended state text offset body create) := by
  unfold augment
  dsimp only
  split
  · exact .refl _
  · exact .refl _
  · split
    · exact (planAdditions_mends body _ _).before _
    · exact .refl _

private theorem tableOptions_mends (state : PipelineState) (text : Text) :
    Mends counter (tableOptions counter state text)
      (tableOptions counter.mended state text) := by
  refine (statementPlace_mends text).bind fun offset => .behind _ fun body => ?_
  split
  · exact .refl _
  · split
    · exact .refl _
    · split
      · exact .refl _
      · split
        · exact .refl _
        · split
          · exact .refl _
          · exact augment_mends state text offset body _

private theorem timeZone_mends (atLineStart : Bool) (state : PipelineState)
    (text : Text) :
    Mends counter (timeZone counter atLineStart state text)
      (timeZone counter.mended atLineStart state text) :=
  (statementPlace_mends text).before _

private theorem dropPlace?_mends (text : Text) (offset : Nat) :
    Mends counter (dropPlace? counter text offset)
      (dropPlace? counter.mended text offset) := by
  refine .walk (fun _ place => .behind _ fun body => ?_) _ _
  refine (firstKeyword_mends body).bind fun found => ?_
  dsimp only
  split
  · exact .refl _
  · split
    · exact (skipGuard_mends text place).before _
    · exact .refl _

private theorem dropRemainder_mends (body : Text) (guarded ownLine : Bool) :
    Mends counter (dropRemainder counter body guarded ownLine)
      (dropRemainder counter.mended body guarded ownLine) := by
  unfold dropRemainder
  split
  · exact (scanGuard_mends body).before _
  · exact .refl _

private theorem dropStatement_mends (atLineStart : Bool) (state : PipelineState)
    (text : Text) :
    Mends counter (dropStatement counter atLineStart state text)
      (dropStatement counter.mended atLineStart state text) := by
  refine (statementOffset_mends text).bind fun trivia =>
    (dropPlace?_mends text trivia).bind fun found => ?_
  cases found with
  | none => exact .refl _
  | some place =>
      refine .behind _ fun body => .behind _ fun ownLine => .before ?_ _
      exact dropRemainder_mends body place.2 ownLine

private theorem resetFrom_mends (text : Text) (places : List (Nat × Nat))
    (lexer : Lexer) (place copied : Nat) (done : Text) :
    Mends counter (resetFrom counter text places lexer place copied done)
      (resetFrom counter.mended text places lexer place copied done) := by
  induction places generalizing lexer place copied done with
  | nil => exact .refl _
  | cons found places ih =>
      have lexed : Mends counter (lexTo counter text found.1 lexer place)
          (lexTo counter.mended text found.1 lexer place) := by
        refine .walk (fun lexer place => ?_) _ _
        unfold lexTurn
        split
        · exact .refl _
        · exact (lexer.stepChecked_mends _ place true).before _
      refine lexed.bind fun stopped => ?_
      dsimp only
      split
      · exact .behind _ fun piece => ih _ _ _ _
      · exact ih _ _ _ _

private theorem volatile_mends (state : PipelineState) (text : Text) :
    Mends counter (volatile counter state text)
      (volatile counter.mended state text) := by
  refine (statementPlace_mends text).bind fun offset => .behind _ fun parts =>
    .before ?_ _
  unfold resetTable
  split
  · exact resetFrom_mends _ _ _ _ _ _
  · exact .refl _

private theorem applyAll_mends (atLineStart : Bool) (stages : List Stage)
    (state : PipelineState) (text : Text) :
    Mends counter (applyAll counter atLineStart stages state text)
      (applyAll counter.mended atLineStart stages state text) := by
  induction stages generalizing state text with
  | nil => exact .refl _
  | cons stage stages ih =>
      cases text with
      | nil => exact .refl _
      | cons head tail =>
          refine .bind ?_ fun applied => ih applied.1 applied.2
          cases stage with
          | tableOptions => exact tableOptions_mends state _
          | timeZone => exact timeZone_mends atLineStart state _
          | dropStatement => exact dropStatement_mends atLineStart state _
          | volatile => exact volatile_mends state _

private theorem processAll_mends (pipeline : Pipeline)
    (units : List StatementUnit) :
    Mends counter (processAll counter pipeline units)
      (processAll counter.mended pipeline units) := by
  induction units generalizing pipeline with
  | nil => exact .refl _
  | cons unit units ih =>
      refine .bind ?_ fun processed => (ih processed.1).before _
      unfold process
      split
      · exact .refl _
      · exact (applyAll_mends _ _ _ _).before _

theorem scan_mends (scanner : ByteScanner) (atEnd : Bool) (input : Text) :
    Mends counter (scanner.scan counter atEnd input)
      (scanner.scan counter.mended atEnd input) := by
  refine .before (.walk (fun scanning place => .behind _ fun octet => ?_) _ _) _
  exact (scanning.scanner.lexer.stepChecked_mends _ place atEnd).before _

private theorem unitTurn_mends (buffer octets : Text) (atEnd : Bool)
    (draining : Draining) (octet : Char) (place : Nat) :
    Mends counter (unitTurn counter buffer octets atEnd draining octet place)
      (unitTurn counter.mended buffer octets atEnd draining octet place) := by
  refine .behind _ fun rest => ?_
  dsimp only
  split
  · exact .refl _
  · refine .behind _ fun waits => ?_
    split
    · exact .refl _
    · exact (draining.assembler.lexer.stepChecked_mends octets place
        atEnd).before _

theorem drain_mends (assembler : ByteAssembler) (atEnd : Bool) :
    Mends counter (assembler.drain counter atEnd)
      (assembler.drain counter.mended atEnd) := by
  refine .before (.walk (fun draining place => ?_) _ _) _
  refine .behind _ fun octet => .behind _ fun probe => ?_
  cases probe with
  | needMore => exact .refl _
  | found length => exact .refl _
  | absent => exact unitTurn_mends _ _ atEnd draining octet place

namespace ByteSession

theorem write_mends (session : ByteSession) (units : List StatementUnit) :
    Mends counter (session.write counter units)
      (session.write counter.mended units) :=
  (processAll_mends session.pipeline units).before _

theorem assemble_mends (session : ByteSession) (text : Text) :
    Mends counter (session.assemble counter text)
      (session.assemble counter.mended text) :=
  (drain_mends _ false).bind fun _ => write_mends _ _

theorem feedLines_mends (session : ByteSession) (complete : Option Text) :
    Mends counter (session.feedLines counter complete)
      (session.feedLines counter.mended complete) := by
  cases complete with
  | none => exact .refl _
  | some text =>
      exact (scan_mends _ false _).bind fun _ => .behind _ fun _ =>
        assemble_mends _ _

private theorem pushAll_mends (session : ByteSession) (chunks : List Bytes) :
    Mends counter (session.pushAll counter chunks)
      (session.pushAll counter.mended chunks) := by
  induction chunks generalizing session with
  | nil => exact .refl _
  | cons chunk chunks ih =>
      refine .bind ?_ fun pushed => (ih pushed.1).before _
      exact .behind _ fun _ => feedLines_mends _ _

private theorem finish_mends (session : ByteSession) :
    Mends counter (session.finish counter) (session.finish counter.mended) := by
  refine (feedLines_mends _ _).bind fun fed => ?_
  refine .bind ((scan_mends _ true _).before _) fun scanned => ?_
  refine .behind _ fun accepted => (assemble_mends _ _).bind fun assembled => ?_
  refine .bind ((drain_mends _ true).before _) fun finished => ?_
  exact (write_mends _ _).before _

end ByteSession

private theorem cleanChunks_mends (options : CleanOptions) (catalog : Catalog)
    (chunks : List Bytes) :
    Mends counter (cleanChunks counter options catalog chunks)
      (cleanChunks counter.mended options catalog chunks) :=
  (ByteSession.pushAll_mends _ chunks).bind fun pushed =>
    (ByteSession.finish_mends pushed.1).before _

/-- Only the counter can stop a session. -/
theorem cleanChunks_ends (counter : DepthCounter) (options : CleanOptions)
    (catalog : Catalog) (chunks : List Bytes) :
    (∃ cleaned, cleanChunks counter options catalog chunks = .ok cleaned) ∨
      ∃ depth fault, counter depth = .error fault ∧
        cleanChunks counter options catalog chunks = .error fault := by
  obtain ⟨cleaned, ended, -⟩ :=
    cleanChunks_spec options catalog chunks (counter.mended_total.keeps _)
  rcases cleanChunks_mends options catalog chunks with same | failed
  · exact .inl ⟨cleaned, same.trans ended⟩
  · exact .inr failed

end Offset

/-- However a stream is cut into chunks, the session over its bytes comes to the
end: no text is cut outside its bounds or inside a character, no difference lies
below zero and no loop stands still.  Only a counter that stops at some depth
can stop it: the one with 32 bits that wraps around does not, and the one that
stops does so for its overflow alone.  A counter that goes as far as there are
opening markers in the stream, and in the options of the catalog that a table
may get, counts every comment: the texts and the report are those over
characters.  Both counters with 32 bits do so for fewer than 2^32 markers. -/
theorem cleaning_never_faults (options : CleanOptions) (catalog : Catalog)
    (chunks : List Bytes) :
    (∃ cleaned,
        Offset.cleanChunks .wrapping options catalog chunks = .ok cleaned) ∧
      (openings (Utf8.decodeLossy chunks.flatten) + catalog.openings <
          UInt32.size →
        Offset.cleanChunks .trapping options catalog chunks =
            .ok (cleanChunks options catalog chunks) ∧
          Offset.cleanChunks .wrapping options catalog chunks =
            .ok (cleanChunks options catalog chunks)) ∧
      (∀ fault,
        Offset.cleanChunks .trapping options catalog chunks = .error fault →
        fault = .overflow) ∧
      (∀ counter : DepthCounter,
        (∃ cleaned,
          Offset.cleanChunks counter options catalog chunks = .ok cleaned) ∨
          ∃ depth fault, counter depth = .error fault ∧
            Offset.cleanChunks counter options catalog chunks = .error fault) ∧
      (∀ counter : DepthCounter,
        counter.CountsTo (openings (Utf8.decodeLossy chunks.flatten) +
          catalog.openings) →
        Offset.cleanChunks counter options catalog chunks =
          .ok (cleanChunks options catalog chunks)) ∧
      Offset.cleanChunks .exact options catalog chunks =
        .ok (cleanChunks options catalog chunks) := by
  have counted (counter : DepthCounter)
      (counts : counter.CountsTo
        (openings (Utf8.decodeLossy chunks.flatten) + catalog.openings)) :
      Offset.cleanChunks counter options catalog chunks =
        .ok (cleanChunks options catalog chunks) := by
    obtain ⟨cleaned, ended, same⟩ :=
      Offset.cleanChunks_spec options catalog chunks counts.keeps
    rw [same trivial, ended]
  refine ⟨?_,
    fun below => ⟨counted _ (trapping_countsTo below),
    counted _ (wrapping_countsTo below)⟩,
    ?_, fun counter => Offset.cleanChunks_ends counter options catalog chunks,
      counted,
    counted _ (exact_exact _)⟩
  · obtain ⟨cleaned, ended, -⟩ :=
      Offset.cleanChunks_spec options catalog chunks (wrapping_total.keeps _)
    exact ⟨cleaned, ended⟩
  · intro fault failed
    rcases Offset.cleanChunks_ends .trapping options catalog chunks with
      ⟨cleaned, ended⟩ | ⟨depth, other, stopped, ended⟩
    · rw [ended] at failed
      simp at failed
    · rw [failed] at ended
      rw [Except.error.inj ended]
      exact trapping_error stopped

/-- A comment in a comment, cut inside its marker. -/
def nestedChunks : List Bytes :=
  ["/* a /".toList, "* b */ */\n".toList].map Text.encode

theorem cleaning_never_faults_nested :
    openings (Utf8.decodeLossy nestedChunks.flatten) + ({} : Catalog).openings =
      2 ∧
      Offset.cleanChunks .trapping {} {} nestedChunks =
        .ok (cleanChunks {} {} nestedChunks) := by
  have markers :
      openings (Utf8.decodeLossy nestedChunks.flatten) +
          ({} : Catalog).openings = 2 := by
    decide
  obtain ⟨-, counted, -⟩ := cleaning_never_faults {} {} nestedChunks
  have below : openings (Utf8.decodeLossy nestedChunks.flatten) +
      ({} : Catalog).openings <
      UInt32.size := by
    rw [markers]
    decide
  exact ⟨markers, (counted below).1⟩

end SqlDump
