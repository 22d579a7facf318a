import SqlDump.Proofs.Ddl.Reading
import SqlDump.Proofs.Guard.Lead
import SqlDump.Proofs.Text.Word

/-!
# Names in front of a column list

What a `CREATE TABLE` statement names is decided in front of the parenthesis
that opens its column list.  A reader of words and blanks never looks past a
parenthesis or an equals sign; a reader of names looks past a parenthesis only
in backticks, and then the list does not begin there.
-/

namespace SqlDump

namespace Ddl

/-- Whether the reader succeeds in front of the stop, and what it leaves, is
decided in front of the stop. -/
def Uniform (stop : Char) (reader : Text → Option Text) : Prop :=
  ∀ front, (∀ list, reader (front ++ stop :: list) = none) ∨
    ∃ later, ∀ list, reader (front ++ stop :: list) =
      some (later ++ stop :: list)

section

variable {stop : Char} {word : Text} {first second : Text → Option Text}

theorem Uniform.bind (uniform : Uniform stop first)
    (uniformNext : Uniform stop second) :
    Uniform stop fun text => (first text).bind second := by
  intro front
  dsimp only
  rcases uniform front with fails | ⟨middle, reads⟩
  · refine .inl fun list => ?_
    rw [fails, Option.bind_none]
  · simp only [reads, Option.bind_some]
    exact uniformNext middle

theorem Uniform.optional (uniform : Uniform stop first)
    (uniformNext : Uniform stop second) :
    Uniform stop fun text => second ((first text).getD text) := by
  intro front
  dsimp only
  rcases uniform front with fails | ⟨later, reads⟩
  · simp only [fails, Option.getD_none]
    exact uniformNext front
  · simp only [reads, Option.getD_some]
    exact uniformNext later

theorem uniform_afterWord? (noLetter : foldLetter stop ∉ word.map foldLetter) :
    Uniform stop (Text.afterWord? word) := by
  intro front
  induction word generalizing front with
  | nil => exact .inr ⟨front, fun list => rfl⟩
  | cons wanted word ih =>
      rw [List.map_cons, List.mem_cons, not_or] at noLetter
      cases front with
      | nil => exact .inl fun list => if_neg noLetter.1
      | cons found front =>
          have fold (list : Text) :
              Text.afterWord? (wanted :: word)
                (found :: front ++ stop :: list) =
                if foldLetter found = foldLetter wanted then
                  Text.afterWord? word (front ++ stop :: list) else none := rfl
          simp only [fold]
          split
          · exact ih noLetter.2 front
          · exact .inl fun list => rfl

theorem trimStart_before (visible : isBlank stop = false) (front list : Text) :
    Text.trimStart (front ++ stop :: list) = front.trimStart ++ stop :: list :=
  (Text.takeWhile_before visible front list).2

theorem uniform_afterBlanks? (visible : isBlank stop = false) :
    Uniform stop Text.afterBlanks? := by
  intro front
  cases front with
  | nil => exact .inl fun list => by simp [Text.afterBlanks?, visible]
  | cons head tail =>
      cases blank : isBlank head with
      | false => exact .inl fun list => by simp [Text.afterBlanks?, blank]
      | true =>
          refine .inr ⟨Text.trimStart tail, fun list => ?_⟩
          rw [List.cons_append, Text.afterBlanks?, if_pos blank,
            trimStart_before visible]

theorem uniform_afterWordBlanks?
    (noLetter : foldLetter stop ∉ word.map foldLetter)
    (visible : isBlank stop = false) : Uniform stop (afterWordBlanks? word) :=
  (uniform_afterWord? noLetter).bind (uniform_afterBlanks? visible)

theorem uniform_afterCreateTable? (isStop : stop = '(' ∨ stop = '=') :
    Uniform stop afterCreateTable? := by
  rcases isStop with rfl | rfl <;>
  · exact (uniform_afterWordBlanks? (by decide) (by decide)).bind
      ((uniform_afterWordBlanks? (by decide) (by decide)).optional
        (uniform_afterWord? (by decide)))

/-- The words begin with a letter, which is a token or begins one. -/
theorem afterCreateTable?_begins {text rest : Text}
    (found : afterCreateTable? text = some rest) :
    ∃ head tail, text = head :: tail ∧ (head = 'C' ∨ head = 'c') := by
  obtain ⟨behindCreate, wordFound, -⟩ := Option.bind_eq_some_iff.mp found
  obtain ⟨behindWord, letters, -⟩ := Option.bind_eq_some_iff.mp wordFound
  obtain ⟨head, tail, rfl, same, -⟩ := afterWord?_cons letters
  exact ⟨head, tail, rfl,
    eq_or_eq_of_foldLetter_eq rfl (by decide) (by decide) same⟩

theorem isCreateTable_begins {text : Text}
    (creates : isCreateTable text = true) :
    ∃ head tail, text = head :: tail ∧ (head = 'C' ∨ head = 'c') := by
  unfold isCreateTable at creates
  split at creates
  · next rest found => exact afterCreateTable?_begins found
  · exact absurd creates Bool.false_ne_true

theorem isCreateTable_before (front first second : Text) :
    isCreateTable (front ++ '=' :: first) =
      isCreateTable (front ++ '=' :: second) := by
  rcases uniform_afterCreateTable? (.inr rfl) front with fails | ⟨later, reads⟩
  · rw [isCreateTable, isCreateTable, fails, fails]
  · rw [isCreateTable, isCreateTable, reads, reads]
    cases later <;> rfl

end

private theorem uniform_afterIfNotExists? : Uniform '(' afterIfNotExists? :=
  (uniform_afterWordBlanks? (by decide) (by decide)).bind
    ((uniform_afterWordBlanks? (by decide) (by decide)).bind
      (uniform_afterWordBlanks? (by decide) (by decide)))

theorem trimStart_opener (front list : Text) :
    Text.trimStart (front ++ '(' :: list) = front.trimStart ++ '(' :: list :=
  trimStart_before (by decide) front list

variable {front blanks list name rest : Text} {create : CreateTable}

private theorem quotedName?_eq (inner behind : Text)
    (noQuote : backtick ∉ inner) :
    quotedName? (backtick :: (inner ++ backtick :: behind)) =
      if inner = [] then none else some (inner, behind) := by
  have passes : ∀ character ∈ inner, (character != backtick) = true := by
    intro character member
    exact bne_iff_ne.mpr fun same => noQuote (same ▸ member)
  have taken : (inner ++ backtick :: behind).takeWhile (· != backtick) =
      inner := by
    rw [List.takeWhile_append_of_pos passes]
    simp
  have dropped : (inner ++ backtick :: behind).dropWhile (· != backtick) =
      backtick :: behind := by
    rw [List.dropWhile_append_of_pos passes]
    simp
  simp only [backtick] at taken dropped ⊢
  rw [quotedName?, taken, dropped]
  cases inner with
  | nil => rfl
  | cons head tail => rfl

theorem plainName?_backtick (text : Text) :
    plainName? isWord (backtick :: text) = none := rfl

theorem name?_quoted (inner behind : Text) (noQuote : backtick ∉ inner) :
    name? isWord (backtick :: (inner ++ backtick :: behind)) =
      if inner = [] then none else some (inner, behind) := by
  rw [name?, quotedName?_eq inner behind noQuote, plainName?_backtick,
    Option.or_none]

private theorem name?_unclosed {text : Text} (noQuote : backtick ∉ text) :
    name? isWord (backtick :: text) = none := by
  have passes : ∀ character ∈ text, (character != backtick) = true := by
    intro character member
    exact bne_iff_ne.mpr fun same => noQuote (same ▸ member)
  have dropped : (text ++ []).dropWhile (· != backtick) = [] :=
    List.dropWhile_append_of_pos passes
  have unclosed : quotedName? (backtick :: text) = none := by
    rw [List.append_nil, backtick] at dropped
    rw [backtick, quotedName?, dropped]
    split <;> simp_all
  rw [name?, unclosed, plainName?_backtick, Option.none_or]

private theorem name?_plain {head : Char} (noQuote : head ≠ backtick)
    (tail : Text) :
    name? isWord (head :: tail) = plainName? isWord (head :: tail) := by
  have noName : quotedName? (head :: tail) = none := by
    unfold quotedName?
    split
    · next text same => exact absurd (List.cons.inj same).1 noQuote
    · rfl
  rw [name?, noName, Option.none_or]

private theorem plainName?_opener
    (found : plainName? isWord (front ++ '(' :: list) = some (name, rest)) :
    ∃ later, rest = later ++ '(' :: list ∧
      ∀ other, plainName? isWord (front ++ '(' :: other) =
        some (name, later ++ '(' :: other) := by
  have stops (other : Text) :
      (front ++ '(' :: other).takeWhile isWord = front.takeWhile isWord ∧
        (front ++ '(' :: other).dropWhile isWord = front.dropWhile isWord ++
          '(' :: other :=
    Text.takeWhile_before (by decide) front other
  simp only [plainName?, (stops _).1, (stops _).2] at found ⊢
  cases word : front.takeWhile isWord with
  | nil => simp [word] at found
  | cons first others =>
      simp only [word, Option.some.injEq, Prod.mk.injEq] at found
      obtain ⟨rfl, rfl⟩ := found
      exact ⟨_, rfl, fun other => rfl⟩

/-- A backtick that no other one follows before the parenthesis ends its name in
the list. -/
theorem length_of_name?_open {tail : Text} (openQuote : backtick ∉ tail)
    (found : name? isWord (backtick :: (tail ++ '(' :: list)) =
        some (name, rest)) :
    rest.length < list.length := by
  by_cases closedBehind : backtick ∈ list
  · obtain ⟨inner, behind, rfl, noQuote⟩ :=
      List.eq_append_cons_of_mem closedBehind
    have noQuoteWhole : backtick ∉ tail ++ '(' :: inner := by
      simp only [List.mem_append, List.mem_cons, not_or]
      exact ⟨openQuote, by decide, noQuote⟩
    have whole : tail ++ '(' :: (inner ++ backtick :: behind) =
        tail ++ '(' :: inner ++ backtick :: behind := by simp
    rw [whole, name?_quoted _ _ noQuoteWhole, if_neg (by simp)] at found
    obtain ⟨-, rfl⟩ := Prod.mk.inj (Option.some.inj found)
    rw [List.length_append, List.length_cons]
    omega
  · have noQuote : backtick ∉ tail ++ '(' :: list := by
      simp only [List.mem_append, List.mem_cons, not_or]
      exact ⟨openQuote, by decide, closedBehind⟩
    rw [name?_unclosed noQuote] at found
    exact absurd found (Option.some_ne_none _).symm

/-- A name is read in front of the parenthesis, or the backtick that ends it
stands behind. -/
theorem name?_opener
    (found : name? isWord (front ++ '(' :: list) = some (name, rest)) :
    (∃ later, rest = later ++ '(' :: list ∧
      ∀ other, name? isWord (front ++ '(' :: other) =
        some (name, later ++ '(' :: other)) ∨
      rest.length < list.length := by
  cases front with
  | nil => simp [name?, quotedName?, plainName?, isWord] at found
  | cons head tail =>
      by_cases quoted : head = backtick
      · subst quoted
        by_cases closed : backtick ∈ tail
        · obtain ⟨inner, behind, rfl, noQuote⟩ :=
            List.eq_append_cons_of_mem closed
          have read (other : Text) :
              name? isWord (backtick :: (inner ++ backtick :: behind) ++
                '(' :: other) =
                if inner = [] then none
                else some (inner, behind ++ '(' :: other) := by
            rw [← name?_quoted inner _ noQuote]
            simp only [List.cons_append, List.append_assoc]
          rw [read] at found
          split at found
          · simp at found
          · next nonempty =>
              obtain ⟨rfl, rfl⟩ := Prod.mk.inj (Option.some.inj found)
              exact .inl ⟨behind, rfl,
                fun other => by rw [read, if_neg nonempty]⟩
        · exact .inr (length_of_name?_open closed found)
      · have plain (other : Text) :
            name? isWord (head :: tail ++ '(' :: other) =
              plainName? isWord (head :: tail ++ '(' :: other) :=
                name?_plain quoted _
        simp only [plain] at found ⊢
        exact .inl (plainName?_opener found)

theorem trimStart_of_isAllBlank (blank : blanks.isAllBlank = true)
    (list : Text) :
    Text.trimStart (blanks ++ '(' :: list) = '(' :: list := by
  unfold Text.trimStart
  rw [List.dropWhile_append_of_pos (List.all_eq_true.mp blank)]
  rfl

theorem qualified?_opener (front list : Text) :
    qualified? (front ++ '(' :: list) =
      match front.trimStart with
      | '.' :: dotted => name? isWord (Text.trimStart dotted ++ '(' :: list)
      | _ => none := by
  rw [qualified?, trimStart_opener]
  cases front.trimStart with
  | nil => rfl
  | cons head dotted =>
      by_cases dot : head = '.'
      · subst dot
        simp [trimStart_opener]
      · simp [dot]

private theorem tableName?_qualified {text first table behind : Text}
    (named : name? isWord text = some (first, rest))
    (qualified : qualified? rest = some (table, behind)) :
    tableName? text = some ⟨some first, table, behind⟩ := by
  simp [tableName?, named, qualified]

private theorem tableName?_unqualified {text first : Text}
    (named : name? isWord text = some (first, rest))
    (unqualified : qualified? rest = none) :
    tableName? text = some ⟨none, first, rest⟩ := by
  simp [tableName?, named, unqualified]

/-- A table name in front of the parenthesis that opens a column list. -/
theorem tableName?_opener (blank : blanks.isAllBlank = true)
    (found : tableName? (front ++ '(' :: list) = some create)
    (opens : create.rest = blanks ++ '(' :: list) (other : Text) :
    tableName? (front ++ '(' :: other) = some { create with
      rest := blanks ++ '(' :: other } := by
  have long : list.length < create.rest.length := by
    rw [opens, List.length_append, List.length_cons]
    omega
  have trimmed := trimStart_of_isAllBlank blank list
  rw [← opens] at trimmed
  obtain ⟨⟨first, rest⟩, firstFound, named⟩ := Option.bind_eq_some_iff.mp found
  have notShort (behind : Text) (reaches : create.rest <:+ behind)
      (short : behind.length < list.length) : False := by
    have lengths := reaches.length_le
    omega
  dsimp only at named
  have reachesRest : create.rest <:+ rest := by
    split at named
    · next table behind qualified =>
        obtain rfl := Option.some.inj named
        exact (readsTo_qualified? qualified).suffix
    · obtain rfl := Option.some.inj named
      exact List.suffix_refl _
  rcases name?_opener firstFound with ⟨later, rfl, readsFirst⟩ | short
  · split at named
    · next table behind qualified =>
        obtain rfl := Option.some.inj named
        rw [qualified?_opener] at qualified
        split at qualified
        · next dotted trimmedLater =>
            rcases name?_opener qualified with ⟨last, rfl, readsTable⟩ | short
            · obtain rfl : last = blanks := List.append_cancel_right opens
              refine tableName?_qualified (readsFirst other) ?_
              rw [qualified?_opener, trimmedLater]
              exact readsTable other
            · exact (notShort behind (List.suffix_refl _) short).elim
        · simp at qualified
    · next unqualified =>
        obtain rfl := Option.some.inj named
        obtain rfl : later = blanks := List.append_cancel_right opens
        have nothing : later.trimStart = [] := by
          rw [trimStart_opener] at trimmed
          exact List.append_left_eq_self.mp trimmed
        refine tableName?_unqualified (readsFirst other) ?_
        rw [qualified?_opener, nothing]
  · exact (notShort rest reachesRest short).elim

/-- If the words `IF NOT EXISTS` are the name of the table, no column list
follows it. -/
theorem not_opener_of_afterIfNotExists? {text : Text}
    (words : afterIfNotExists? text = some rest)
    (found : tableName? text = some create) :
    create.rest.trimStart.head? ≠ some '(' := by
  obtain ⟨behindIf, ifFound, words⟩ := Option.bind_eq_some_iff.mp words
  obtain ⟨behindNot, notFound, -⟩ := Option.bind_eq_some_iff.mp words
  obtain ⟨behindWord, ifWord, ifBlanks⟩ := Option.bind_eq_some_iff.mp ifFound
  obtain ⟨behindLast, notWord, -⟩ := Option.bind_eq_some_iff.mp notFound
  obtain ⟨first, tail, rfl, firstFold, ifWord⟩ := afterWord?_cons ifWord
  obtain ⟨second, tail, rfl, secondFold, ifWord⟩ := afterWord?_cons ifWord
  obtain rfl := Option.some.inj ifWord
  obtain ⟨third, more, rfl, thirdFold, -⟩ := afterWord?_cons notWord
  obtain ⟨gap, rfl, nonempty, blank⟩ := afterBlanks?_spec ifBlanks
  have firstCases :=
    eq_or_eq_of_foldLetter_eq (by decide) (by decide) (by decide) firstFold
  have secondCases :=
    eq_or_eq_of_foldLetter_eq (by decide) (by decide) (by decide) secondFold
  have thirdCases :=
    eq_or_eq_of_foldLetter_eq (by decide) (by decide) (by decide) thirdFold
  have visible : isBlank third = false ∧ third ≠ '.' ∧ third ≠ '(' := by
    rcases thirdCases with rfl | rfl <;> decide
  obtain ⟨head, blanks, rfl⟩ := List.exists_cons_of_ne_nil nonempty
  have headBlank : isBlank head = true :=
    List.all_eq_true.mp blank head List.mem_cons_self
  have word : [first, second].all isWord = true ∧ first ≠ backtick := by
    rcases firstCases with rfl | rfl <;> rcases secondCases with rfl |
      rfl <;> decide
  have trimmed : Text.trimStart (head :: blanks ++ third :: more) =
      third :: more := by
    unfold Text.trimStart
    rw [List.dropWhile_append_of_pos (List.all_eq_true.mp blank),
      List.dropWhile_cons_of_neg (by rw [visible.1]; decide)]
  have named :
      name? isWord (first :: second :: (head :: blanks ++ third :: more)) =
        some ([first, second], head :: blanks ++ third :: more) := by
    have noQuote :
        quotedName? (first :: second :: (head :: blanks ++ third :: more)) =
          none := by
      unfold quotedName?
      split
      · next text same => exact absurd (List.cons.inj same).1 word.2
      · rfl
    have letters : isWord first = true ∧ isWord second = true := by
      simpa using word.1
    have stops := not_isWord_of_isBlank headBlank
    rw [name?, noQuote, Option.none_or, plainName?]
    simp [letters, stops]
  have unqualified : qualified? (head :: blanks ++ third :: more) = none := by
    rw [qualified?, trimmed]
    split
    · next same => exact absurd (List.cons.inj same).1 visible.2.1
    · rfl
  rw [tableName?, named] at found
  simp only [Option.bind_eq_bind, Option.bind_some, unqualified,
    Option.some.injEq] at found
  subst found
  rw [trimmed]
  simpa using visible.2.2

/-- What a statement creates is decided in front of the parenthesis that opens
its column list. -/
theorem createTable?_opener (blank : blanks.isAllBlank = true)
    (found : createTable? (front ++ '(' :: list) = some create)
    (opens : create.rest = blanks ++ '(' :: list) (other : Text) :
    createTable? (front ++ '(' :: other) =
      some { create with rest := blanks ++ '(' :: other } := by
  have trimmed := trimStart_of_isAllBlank blank list
  rw [← opens] at trimmed
  have uniform : Uniform '(' fun text =>
    (afterCreateTable? text).bind Text.afterBlanks? :=
    (uniform_afterCreateTable? (.inl rfl)).bind
      (uniform_afterBlanks? (by decide))
  rcases uniform front with fails | ⟨named, reads⟩
  · have nothing := fails list
    dsimp only at nothing
    simp [createTable?, nothing] at found
  · have split (text : Text) : createTable? (front ++ '(' :: text) =
        ((afterIfNotExists? (named ++ '(' :: text)).bind tableName?).or
          (tableName? (named ++ '(' :: text)) := by
      have read := reads text
      dsimp only at read
      rw [createTable?, read]
      rfl
    rw [split] at found ⊢
    rcases uniform_afterIfNotExists? named with noWords | ⟨later, words⟩
    · rw [noWords, Option.bind_none, Option.none_or] at found ⊢
      exact tableName?_opener blank found opens other
    · rw [words, Option.bind_some] at found ⊢
      cases table : tableName? (later ++ '(' :: list) with
      | some created =>
          rw [table, Option.some_or, Option.some.injEq] at found
          subst found
          rw [tableName?_opener blank table opens other, Option.some_or]
      | none =>
          rw [table, Option.none_or] at found
          have noOpener := not_opener_of_afterIfNotExists? (words list) found
          rw [trimmed] at noOpener
          exact absurd rfl noOpener

end Ddl

end SqlDump
