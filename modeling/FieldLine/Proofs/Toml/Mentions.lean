import FieldLine.Toml.Document

/-!
# What documents mention

A document is a sequence of statements, and what they say does not depend on the tables so far.  A
key of the outermost table stands for a value if the document gives it one and does not mention it
otherwise, and for a table if the document only mentions it in paths and headers.  A document that
does both, or gives a key two values, is refused.
-/

namespace FieldLine
namespace Toml

/-! ## Statements -/

/-- A statement: a line without one, the header of a table or of an element of a list of tables, or
a key with its value. -/
inductive Statement where
  | nothing
  | header (path : List String) (key : String)
  | elementHeader (path : List String) (key : String)
  | entry (path : List String) (key : String) (value : Value)

/-- Reads a statement and the rest of its line. -/
def Statement.read? (text : List Char) : Option (Statement × List Char) :=
  match text with
  | '[' :: '[' :: text => do
      let ((path, key), text) ← readKey text
      let text ← strip? [']', ']'] text
      return (.elementHeader path key, ← skipLineEnd text)
  | '[' :: text => do
      let ((path, key), text) ← readKey text
      let text ← strip? [']'] text
      return (.header path key, ← skipLineEnd text)
  | c :: rest =>
      if c = '#' ∨ c = '\n' ∨ c = '\r' then
        (skipLineEnd (c :: rest)).map (.nothing, ·)
      else do
        let ((path, key), text) ← readKey (c :: rest)
        let text ← strip? ['='] text
        let (value, text) ← readValue maxDepth (skipBlanks text)
        return (.entry path key value, ← skipLineEnd text)
  | [] => none

/-- What a statement changes. -/
def Draft.step (draft : Draft) : Statement → Option Draft
  | .nothing => some draft
  | .header path key => draft.turnTo Table.define path key
  | .elementHeader path key => draft.turnTo Table.append path key
  | .entry path key value => draft.add path key value

/-- It does not matter whether a statement takes effect before or after the rest of its line. -/
theorem step_skipLineEnd (draft : Draft) (statement : Statement) (text : List Char) :
    (do return (← draft.step statement, ← skipLineEnd text)) =
      (do return (statement, ← skipLineEnd text) : Option (Statement × List Char)).bind
        fun (statement, rest) => (draft.step statement).map (·, rest) := by
  rcases steps : draft.step statement with _ | next
  · rcases skipLineEnd text with _ | rest
    · rfl
    · simp [steps]
  · rcases skipLineEnd text with _ | rest
    · rfl
    · simp [steps]

theorem readStatement_eq (draft : Draft) (c : Char) (later : List Char) :
    readStatement draft (c :: later) =
      (Statement.read? (c :: later)).bind fun (statement, rest) =>
        (draft.step statement).map (·, rest) := by
  generalize isText : c :: later = text
  fun_cases Statement.read? text with
  | case1 text =>
      rw [readStatement]
      rcases readKey text with _ | ⟨⟨path, key⟩, atEnd⟩
      · rfl
      rcases strips : strip? [']', ']'] atEnd with _ | rest
      · simp [strips]
      · simp only [strips, bind, Option.bind, pure]
        exact step_skipLineEnd draft (.elementHeader path key) rest
  | case2 text noElement =>
      rw [readStatement]
      · rcases readKey text with _ | ⟨⟨path, key⟩, atEnd⟩
        · rfl
        rcases strips : strip? [']'] atEnd with _ | rest
        · simp [strips]
        · simp only [strips, bind, Option.bind, pure]
          exact step_skipLineEnd draft (.header path key) rest
      · exact noElement
  | case3 c rest noElement noHeader isEmpty =>
      rw [readStatement, if_pos isEmpty]
      · rcases skipLineEnd (c :: rest) with _ | others <;> rfl
      · exact noElement
      · exact noHeader
  | case4 c rest noElement noHeader notEmpty =>
      rw [readStatement, if_neg notEmpty]
      · rcases readKey (c :: rest) with _ | ⟨⟨path, key⟩, atEnd⟩
        · rfl
        rcases strips : strip? ['='] atEnd with _ | atValue
        · simp [strips]
        rcases reads : readValue maxDepth (skipBlanks atValue) with _ | ⟨value, rest⟩
        · simp [strips, reads]
        · simp only [strips, reads, bind, Option.bind, pure]
          exact step_skipLineEnd draft (.entry path key value) rest
      · exact noElement
      · exact noHeader
  | case5 => cases isText

def statementsFrom : (fuel : Nat) → List Char → Option (List Statement)
  | 0, _ => some []
  | fuel + 1, text =>
      match skipBlanks text with
      | [] => some []
      | text => do
          let (statement, rest) ← Statement.read? text
          return statement :: (← statementsFrom fuel rest)

/-- The statements of a document. -/
def statements? (text : String) : Option (List Statement) :=
  statementsFrom (text.length + 1) (skipMark text.toList)

theorem readStatements_eq (fuel : Nat) (draft : Draft) (text : List Char) :
    readStatements fuel draft text =
      (statementsFrom fuel text).bind fun statements => statements.foldlM Draft.step draft := by
  induction fuel generalizing draft text with
  | zero => rfl
  | succ fuel inductionHypothesis =>
      rw [readStatements, statementsFrom]
      rcases skipBlanks text with _ | ⟨c, later⟩
      · rfl
      dsimp only
      rw [readStatement_eq]
      rcases Statement.read? (c :: later) with _ | ⟨statement, rest⟩
      · rfl
      rcases steps : draft.step statement with _ | next
      · rcases found : statementsFrom fuel rest with _ | statements
        · simp [steps, found]
        · simp [steps, found]
      · simp only [bind, Option.bind_some, steps, Option.map_some, inductionHypothesis]
        rcases statementsFrom fuel rest with _ | statements
        · rfl
        · simp [pure, List.foldlM_cons, steps]

theorem parse_eq (text : String) :
    parse text = (statements? text).bind fun statements =>
      (statements.foldlM Draft.step {}).map Draft.root := by
  rw [parse, readStatements_eq, statements?, Option.map_bind]
  rfl

/-! ## Mentions -/

/-- A path from the outermost table that a document mentions, with the value that it gives it, if it
does. -/
structure Mention where
  path : List String
  value : Option Value

/-- The value that a mention gives to a key of the outermost table. -/
def Mention.given? : Mention → Option Value
  | ⟨[_], value⟩ => value
  | _ => none

namespace Statement

/-- The table that keys belong to after a statement. -/
def turn (current : List String) : Statement → List String
  | nothing => current
  | header path key => path ++ [key]
  | elementHeader path key => path ++ [key]
  | entry _ _ _ => current

def mention? (current : List String) : Statement → Option Mention
  | nothing => none
  | header path key => some ⟨path ++ [key], none⟩
  | elementHeader path key => some ⟨path ++ [key], none⟩
  | entry path key value => some ⟨current ++ (path ++ [key]), some value⟩

end Statement

def mentionsFrom : (current : List String) → List Statement → List Mention
  | _, [] => []
  | current, statement :: later =>
      (statement.mention? current).toList ++ mentionsFrom (statement.turn current) later

/-- The mentions of a key of the outermost table, and of what is inside it. -/
def mentionsOf (key : String) (statements : List Statement) : List Mention :=
  (mentionsFrom [] statements).filter fun mention => mention.path.head? = some key

/-! ## Steps -/

namespace Table

/-- A key gets a value, and nothing else changes. -/
def Gives (key : String) (value : Value) (table changed : Table) : Prop :=
  table.item? key = none ∧ changed.item? key = some (.value value) ∧
    ∀ other, other ≠ key → changed.item? other = table.item? other

/-- A key stands for a table or a list of tables, if it has not done so before. -/
def Enters (key : String) (table changed : Table) : Prop :=
  (∀ value, table.item? key ≠ some (.value value)) ∧
    (∃ item, changed.item? key = some item ∧ ∀ value, item ≠ .value value) ∧
    ∀ other, other ≠ key → changed.item? other = table.item? other

variable {table changed : Table} {key : String}

/-- What a table holds after one more item has been added. -/
theorem item?_add {item : Item} (adds : table.add key item = some changed) :
    table.item? key = none ∧ changed.item? key = some item ∧
      ∀ other, other ≠ key → changed.item? other = table.item? other := by
  rw [add] at adds
  split at adds
  · cases adds
  · rename_i isNew
    cases adds
    refine ⟨isNew, ?_, ?_⟩
    · rw [item?, List.lookup_append, ← item?, isNew, Option.none_or, List.lookup_cons_self]
    · intro other different
      rw [item?, List.lookup_append, List.lookup_cons, beq_false_of_ne different]
      exact Option.or_none

theorem gives_add {value : Value} (adds : table.add key (.value value) = some changed) :
    Gives key value table changed :=
  item?_add adds

theorem enters_set {item : Item} (noValue : ∀ value, table.item? key ≠ some (.value value))
    (isTable : ∀ value, item ≠ .value value) :
    Enters key table { table with entries := set key item table.entries } := by
  refine ⟨noValue, ⟨item, lookup_set_self key item table.entries, isTable⟩, ?_⟩
  intro other different
  exact lookup_set_of_ne key other item table.entries different

theorem ne_value_of_none (isNew : table.item? key = none) (value : Value) :
    table.item? key ≠ some (.value value) := by
  rw [isNew]
  exact nofun

theorem ne_value_of_some {item : Item} (isItem : table.item? key = some item)
    (isTable : ∀ value, item ≠ .value value) (value : Value) :
    table.item? key ≠ some (.value value) := by
  rw [isItem]
  exact fun same => isTable value (Option.some.inj same)

theorem enters_add {item : Item} (isTable : ∀ value, item ≠ .value value)
    (adds : table.add key item = some changed) : Enters key table changed := by
  obtain ⟨isNew, isItem, others⟩ := item?_add adds
  exact ⟨ne_value_of_none isNew, ⟨item, isItem, isTable⟩, others⟩

theorem enters_define (defines : table.define key = some changed) : Enters key table changed := by
  rw [define] at defines
  split at defines
  · refine enters_add ?_ defines
    exact fun _ => nofun
  · rename_i isTable
    cases defines
    exact enters_set (ne_value_of_some isTable fun _ => nofun) fun _ => nofun
  · cases defines

theorem enters_append (appends : table.append key = some changed) : Enters key table changed := by
  rw [append] at appends
  split at appends
  · refine enters_add ?_ appends
    exact fun _ => nofun
  · rename_i isList
    cases appends
    exact enters_set (ne_value_of_some isList fun _ => nofun) fun _ => nofun
  · cases appends

theorem enters_change {dotted : Bool} {action : Table → Option Table} {path : List String}
    (changes : change dotted action (key :: path) table = some changed) :
    Enters key table changed := by
  rw [change] at changes
  split at changes
  · rename_i isNew
    obtain ⟨inner, -, same⟩ := Option.bind_eq_some_iff.mp changes
    cases same
    exact enters_set (ne_value_of_none isNew) fun _ => nofun
  · cases changes
  · rename_i isTable
    split at changes
    · cases changes
    · obtain ⟨inner, -, same⟩ := Option.bind_eq_some_iff.mp changes
      cases same
      exact enters_set (ne_value_of_some isTable fun _ => nofun) fun _ => nofun
  · cases changes
  · rename_i isList
    obtain ⟨inner, -, same⟩ := Option.bind_eq_some_iff.mp changes
    cases same
    exact enters_set (ne_value_of_some isList fun _ => nofun) fun _ => nofun

end Table

theorem turnTo_cases {open? : String → Table → Option Table}
    (enters : ∀ {key : String} {table changed : Table},
      open? key table = some changed → Table.Enters key table changed)
    {path : List String} {key : String} {draft next : Draft}
    (turns : draft.turnTo open? path key = some next) :
    next.current = path ++ [key] ∧
      ∃ first more, path ++ [key] = first :: more ∧ Table.Enters first draft.root next.root := by
  obtain ⟨root, changes, same⟩ := Option.bind_eq_some_iff.mp turns
  cases same
  refine ⟨rfl, ?_⟩
  cases path with
  | nil => exact ⟨key, [], rfl, enters changes⟩
  | cons first more => exact ⟨first, more ++ [key], rfl, Table.enters_change changes⟩

theorem given?_none (path : List String) : Mention.given? ⟨path, none⟩ = none := by
  rcases path with _ | ⟨first, _ | ⟨second, more⟩⟩ <;> rfl

theorem given?_long (first : String) (more : List String) (key : String) (value : Option Value) :
    Mention.given? ⟨first :: more ++ [key], value⟩ = none := by
  cases more <;> rfl

/-- What a statement changes: nothing, a key that gets a value, or a key that stands for a table. -/
theorem step_cases {draft next : Draft} {statement : Statement}
    (steps : draft.step statement = some next) :
    next.current = statement.turn draft.current ∧
      ((statement.mention? draft.current = none ∧ next.root = draft.root) ∨
        (∃ key value, statement.mention? draft.current = some ⟨[key], some value⟩ ∧
          Table.Gives key value draft.root next.root) ∨
        ∃ key mention, statement.mention? draft.current = some mention ∧
          mention.path.head? = some key ∧ mention.given? = none ∧
          Table.Enters key draft.root next.root) := by
  cases statement with
  | nothing =>
      cases steps
      exact ⟨rfl, .inl ⟨rfl, rfl⟩⟩
  | header path key =>
      obtain ⟨isCurrent, first, more, isPath, enters⟩ := turnTo_cases Table.enters_define steps
      refine ⟨isCurrent, .inr (.inr ⟨first, _, rfl, ?_, given?_none _, enters⟩)⟩
      rw [isPath, List.head?_cons]
  | elementHeader path key =>
      obtain ⟨isCurrent, first, more, isPath, enters⟩ := turnTo_cases Table.enters_append steps
      refine ⟨isCurrent, .inr (.inr ⟨first, _, rfl, ?_, given?_none _, enters⟩)⟩
      rw [isPath, List.head?_cons]
  | entry path key value =>
      obtain ⟨root, changes, same⟩ := Option.bind_eq_some_iff.mp steps
      cases same
      refine ⟨rfl, .inr ?_⟩
      rw [Statement.mention?]
      -- Only an entry under the outermost table, with a key of one part, gives a value there.
      generalize draft.current = current at changes
      rcases current with _ | ⟨first, more⟩
      · cases path with
        | nil => exact .inl ⟨key, value, rfl, Table.gives_add changes⟩
        | cons first more =>
            exact .inr ⟨first, _, rfl, rfl, given?_long first more key _,
              Table.enters_change changes⟩
      · refine .inr ⟨first, _, rfl, rfl, ?_, Table.enters_change changes⟩
        rw [← List.append_assoc]
        exact given?_long first (more ++ path) key _

/-! ## Whole documents -/

/-- What a key stands for in a table. -/
inductive Standing where
  | missing
  | value (value : Value)
  | table

namespace Standing

def ofItem : Option Item → Standing
  | none => missing
  | some (.value content) => value content
  | some _ => table

/-- What a key stands for after one more mention, if it may be mentioned in this way. -/
def after? : Standing → Mention → Option Standing
  | missing, mention => some ((mention.given?.map value).getD table)
  | value _, _ => none
  | table, mention => if mention.given? = none then some table else none

theorem ofItem_eq_table {item : Item} (isTable : ∀ value, item ≠ .value value) :
    ofItem (some item) = table := by
  cases item with
  | value content => exact absurd rfl (isTable content)
  | table origin entries => rfl
  | tables elements => rfl

theorem eq_none_of_ofItem {item : Option Item} (isMissing : ofItem item = missing) :
    item = none := by
  rcases item with _ | content | _ | _
  · rfl
  all_goals cases isMissing

theorem eq_value_of_ofItem {item : Option Item} {content : Value}
    (isValue : ofItem item = value content) : item = some (.value content) := by
  rcases item with _ | content | _ | _
  all_goals cases isValue
  rfl

theorem eq_table_of_ofItem {item : Option Item} (isTable : ofItem item = table) :
    ∃ held, item = some held ∧ ∀ value, held ≠ .value value := by
  rcases item with _ | held
  · cases isTable
  · refine ⟨held, rfl, ?_⟩
    rintro content rfl
    cases isTable

theorem after?_entered {item : Option Item} (noValue : ∀ value, item ≠ some (.value value))
    {mention : Mention} (noEntry : mention.given? = none) :
    (ofItem item).after? mention = some table := by
  rcases item with _ | content | _ | _
  · rw [ofItem, after?, noEntry]
    rfl
  · exact absurd rfl (noValue content)
  · exact if_pos noEntry
  · exact if_pos noEntry

end Standing

/-- What a key of the outermost table stands for at some point of a document. -/
def Draft.standing (draft : Draft) (key : String) : Standing :=
  .ofItem (draft.root.item? key)

section

variable {draft next last : Draft} {statement : Statement} {statements : List Statement}

theorem standing_step (steps : draft.step statement = some next) (key : String) :
    ((statement.mention? draft.current).toList.filter
        fun mention => mention.path.head? = some key).foldlM Standing.after?
          (draft.standing key) = some (next.standing key) := by
  obtain ⟨-, ⟨noMention, same⟩ | ⟨name, value, isMention, gives⟩ |
    ⟨name, mention, isMention, begins, noEntry, enters⟩⟩ := step_cases steps
  · rw [noMention, Draft.standing, Draft.standing, same]
    rfl
  · obtain ⟨isNew, isValue, others⟩ := gives
    rw [isMention, Draft.standing, Draft.standing]
    by_cases isKey : name = key
    · subst isKey
      rw [isNew, isValue]
      simp [Standing.ofItem, Standing.after?, Mention.given?]
    · rw [others key (Ne.symm isKey)]
      simp [isKey]
  · obtain ⟨noValue, ⟨item, isItem, isTable⟩, others⟩ := enters
    rw [isMention, Draft.standing, Draft.standing]
    by_cases isKey : name = key
    · subst isKey
      rw [isItem, Standing.ofItem_eq_table isTable]
      simp [begins, Standing.after?_entered noValue noEntry]
    · rw [others key (Ne.symm isKey)]
      simp [begins, isKey]

/-- What a key stands for follows from its mentions, one by one. -/
theorem standing_run (runs : statements.foldlM Draft.step draft = some last) (key : String) :
    ((mentionsFrom draft.current statements).filter
        fun mention => mention.path.head? = some key).foldlM Standing.after?
          (draft.standing key) = some (last.standing key) := by
  induction statements generalizing draft with
  | nil =>
      cases runs
      rfl
  | cons statement later inductionHypothesis =>
      rw [List.foldlM_cons] at runs
      obtain ⟨next, steps, runsLater⟩ := Option.bind_eq_some_iff.mp runs
      rw [mentionsFrom, List.filter_append, List.foldlM_append, standing_step steps key]
      rw [← (step_cases steps).1]
      exact inductionHypothesis runsLater

end

/-! ## Mentions that are allowed -/

namespace Standing

variable {mentions : List Mention} {last : Standing}

theorem foldlM_value {content : Value}
    (stands : mentions.foldlM after? (value content) = some last) :
    mentions = [] ∧ last = value content := by
  cases mentions with
  | nil =>
      cases stands
      exact ⟨rfl, rfl⟩
  | cons mention later =>
      cases stands

theorem foldlM_table (stands : mentions.foldlM after? table = some last) :
    last = table ∧ ∀ mention ∈ mentions, mention.given? = none := by
  induction mentions with
  | nil =>
      cases stands
      exact ⟨rfl, List.forall_mem_nil _⟩
  | cons mention later inductionHypothesis =>
      rw [List.foldlM_cons, after?] at stands
      split at stands
      · obtain ⟨isLast, noEntries⟩ := inductionHypothesis stands
        exact ⟨isLast, List.forall_mem_cons.mpr ⟨‹_›, noEntries⟩⟩
      · cases stands

/-- A key that stands for a value has been mentioned once, and one that stands for a table has been
given no value. -/
theorem foldlM_missing (stands : mentions.foldlM after? missing = some last) :
    (mentions = [] ∧ last = missing) ∨
      (∃ mention content, mentions = [mention] ∧ mention.given? = some content ∧
        last = value content) ∨
      mentions ≠ [] ∧ (∀ mention ∈ mentions, mention.given? = none) ∧ last = table := by
  rcases mentions with _ | ⟨mention, later⟩
  · cases stands
    exact .inl ⟨rfl, rfl⟩
  rw [List.foldlM_cons, after?] at stands
  rcases given : mention.given? with _ | content
  · rw [given] at stands
    obtain ⟨isLast, noEntries⟩ := foldlM_table stands
    exact .inr (.inr
      ⟨List.cons_ne_nil _ _, List.forall_mem_cons.mpr ⟨given, noEntries⟩, isLast⟩)
  · rw [given] at stands
    obtain ⟨rfl, isLast⟩ := foldlM_value stands
    exact .inr (.inl ⟨mention, content, rfl, given, isLast⟩)

end Standing

theorem Mention.eq_of_given? {mention : Mention} {key : String} {value : Value}
    (begins : mention.path.head? = some key) (given : mention.given? = some value) :
    mention = ⟨[key], some value⟩ := by
  obtain ⟨path, content⟩ := mention
  rcases path with _ | ⟨first, _ | ⟨second, more⟩⟩
  · cases given
  · cases begins
    exact congrArg (Mention.mk [_]) given
  · cases given

/-- What a document leaves under a key: nothing if it does not mention the key, a value if that is
the only mention, and a table otherwise. -/
theorem item?_of_run {statements : List Statement} {last : Draft}
    (runs : statements.foldlM Draft.step {} = some last) (key : String) :
    (mentionsOf key statements = [] ∧ last.root.item? key = none) ∨
      (∃ value, mentionsOf key statements = [⟨[key], some value⟩] ∧
        last.root.item? key = some (.value value)) ∨
      mentionsOf key statements ≠ [] ∧
        (∀ mention ∈ mentionsOf key statements, mention.given? = none) ∧
        ∃ item, last.root.item? key = some item ∧ ∀ value, item ≠ .value value := by
  have stands := standing_run runs key
  rcases Standing.foldlM_missing stands with ⟨noMention, isLast⟩ |
    ⟨mention, value, isMention, given, isLast⟩ | ⟨someMention, noValue, isLast⟩
  · exact .inl ⟨noMention, Standing.eq_none_of_ofItem isLast⟩
  · have isOnly : mentionsOf key statements = [mention] := isMention
    have member : mention ∈ mentionsOf key statements := isOnly ▸ List.mem_singleton_self mention
    have begins := of_decide_eq_true (List.mem_filter.mp member).2
    rw [Mention.eq_of_given? begins given] at isOnly
    exact .inr (.inl ⟨value, isOnly, Standing.eq_value_of_ofItem isLast⟩)
  · exact .inr (.inr ⟨someMention, noValue, Standing.eq_table_of_ofItem isLast⟩)

end Toml
end FieldLine
