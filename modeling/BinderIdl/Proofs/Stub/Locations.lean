import BinderIdl.Proofs.Interface.Plain
import BinderIdl.Proofs.Stub.Faults

/-! Where a diagnostic points that keeps an interface from having code. It belongs to a query
that fails on its own, and it points at the declared type of the argument of that query: at the
first token of the type, shown in the line where it stands with a caret below its first
character. -/
namespace BinderIdl

theorem EncodeFault.at_of_getElem? {s : Source} {n : Nat} {t : Token} (h : s.tokens[n]? = some t)
    (complaint : Complaint) (message : String) :
    EncodeFault.at complaint message (some s) (some n) =
      .located (s.diagnosticAt t complaint message) := by
  obtain ⟨hn, -⟩ := List.getElem?_eq_some_iff.mp h
  rw [← Nat.min_eq_left (Nat.le_sub_one_of_lt hn)] at h
  rw [EncodeFault.at, Diagnostic.at?_of_getElem? h]

namespace TypeTree

/-- A type starts with a name. -/
theorem exists_tokens_eq (t : TypeTree) : ∃ rest, t.tokens = t.name.first.token :: rest :=
  ⟨_, rfl⟩

/-- The text of a type starts as its first token does. -/
theorem head?_text {t : TypeTree} {c : Char}
    (h : t.name.first.token.value.toList.head? = some c) : t.text.toList.head? = some c := by
  obtain ⟨value, hValue⟩ := List.head?_eq_some_iff.mp h
  have hName : t.name.text.toList.head? = some c := by
    rw [NameTree.text, Leaf.text]
    cases t.name.further with
    | nil => exact h
    | cons p further =>
        show (t.name.first.token.value ++ "." ++ Text.join "." (_ :: _)).toList.head? = some c
        rw [String.toList_append, String.toList_append, hValue]
        rfl
  obtain ⟨rest, hRest⟩ := List.head?_eq_some_iff.mp hName
  rw [text, String.toList_append, String.toList_append, hRest]
  rfl

end TypeTree

/-- A diagnostic points at a token of a text in which a type starts. It has the place of the
token and the line between line feeds in which the token stands, and when it is shown the caret
is as far to the right as the first character of the type. -/
structure Diagnostic.PointsAt (d : Diagnostic) (text : String) (t : Token) (type : String) :
    Prop where
  line : d.line = some (t.line : Int)
  column : d.column = some (t.column : Int)
  shown : ∃ l c, (text.toList.splitOn '\n')[t.line - 1]? = some l ∧
    d.sourceLine = some (String.ofList l) ∧ l[t.column - 1]? = some c ∧
    type.toList.head? = some c ∧
    d.text = d.place ++ ": error: " ++ d.message ++ "\n" ++ String.ofList l ++ "\n" ++
      String.ofList (Text.spaces (t.column - 1) ++ ['^'])

theorem Source.pointsAt_diagnosticAt {filename : Option String} {text : String} {s : Source}
    (hFeeds : Text.FeedsOnly text.toList) (hRead : Source.read filename text = .ok s)
    {type : TypeTree} (hToken : type.name.first.token ∈ s.tokens) (complaint : Complaint)
    (message : String) :
    (s.diagnosticAt type.name.first.token complaint message).PointsAt text type.name.first.token
      type.text := by
  obtain ⟨l, c, hLine, hShown, hColumn, hFirst⟩ := exists_line_of_read hRead hFeeds hToken
  refine ⟨rfl, rfl, l, c, hLine, hShown, hColumn, type.head?_text hFirst, ?_⟩
  simp only [diagnosticAt, hShown, Diagnostic.text]
  rw [show ((type.name.first.token.column : Int) - 1).toNat = type.name.first.token.column - 1 by
    omega]

namespace Writer

/-- An interface that was read from a text has no code because the sources of the project cannot
be looked up, or because of a diagnostic that points at the type of an argument or a result, which
fails on its own with this diagnostic. -/
theorem pointsAt_of_encodeInterface {filename : Option String} {text : String} {s : Source}
    {i : Interface} {w : Writer} {banner : Banner} {fault : EncodeFault} {e : Desk}
    (hFeeds : Text.FeedsOnly text.toList) (hRead : Source.read filename text = .ok s)
    (hInterface : Interface.ofSource s = .ok (some i)) (hSource : w.context.source = some s)
    (h : w.encodeInterface i banner {} = .error fault e) :
    (∃ f type, fault = .lookup f ∧ w.context.natureObstacle? type = some f) ∨
    ∃ (d : Diagnostic) (q : Query) (m : Method) (n : Nat) (type : TypeTree)
        (name : Terminal .name),
      fault = .located d ∧ q ∈ i.queries ∧
      w.codeFor q.argument q.site q.phase q.name 0 = .error (.located d) ∧
      m ∈ i.methods ∧ (q.argument ∈ m.arguments ∧ name.text = q.argument.name ∨
        q.argument ∈ m.result ∧ name.text = m.name) ∧
      q.argument.type = type.text ∧ StandsAt s.tokens n (type.tokens ++ name.tokens) ∧
      d.filename = filename ∧ d.PointsAt text type.name.first.token type.text ∧
      (d.complaint = .unsupported → d.message =
        "Cannot marshall '" ++ q.argument.direction.word ++ " " ++ q.argument.type ++ "'.") := by
  obtain ⟨q, hq, hFails⟩ := encodeInterface_fails h
  cases hFails with
  | obstructed hMake hObstacle =>
      obtain ⟨type, hType⟩ := Binding.exists_natureObstacle? hMake hObstacle
      exact .inl ⟨_, type, rfl, hType⟩
  | own hFault =>
      obtain ⟨m, hMethod, _, hMember, n, type, name, hPosition, hType, rfl, hStands⟩ :=
        Interface.declared_of_argument? hInterface (Interface.argument?_of_mem_queries hq)
      have hToken : s.tokens[n]? = some type.name.first.token := by
        obtain ⟨rest, hTokens⟩ := type.exists_tokens_eq
        exact (hTokens ▸ hStands.left).getElem?
      obtain ⟨complaint, message, rfl, hMessage⟩ := eq_at_of_fault? hFault
      rw [hSource, hPosition, EncodeFault.at_of_getElem? hToken] at hFault ⊢
      exact .inr ⟨_, q, m, n, type, name, rfl, hq, codeFor_eq_error_iff.mpr hFault, hMethod,
        hMember, hType, hStands, (Source.segmented_of_read hRead).1,
        Source.pointsAt_diagnosticAt hFeeds hRead (List.mem_of_getElem? hToken) complaint message,
        hMessage⟩

/-- A definition with the direction and the type of an argument in two lines. -/
private def misdirected : String :=
  "package demo;\ninterface IStore \x7b\n\tvoid put(in int a, inout /* ; */\n\t\tString b);\n\x7d"

private def misdirectedChars : { cs : List Char // misdirected = String.ofList cs } := ⟨_, rfl⟩

private def misdirectedSource : Source where
  filename := some "IStore.aidl2"
  text := misdirected
  tokens := (Scan.place .start (Scan.lexemes misdirectedChars.1).1).1

private def misdirectedWriter : Writer := ⟨0, { source := some misdirectedSource }⟩

theorem pointsAt_of_encodeInterface_misdirected : ∃ i d e q type,
    Source.read (some "IStore.aidl2") misdirected = .ok misdirectedSource ∧
    Interface.ofSource misdirectedSource = .ok (some i) ∧
    misdirectedWriter.encodeInterface i {} {} = .error (.located d) e ∧
    q ∈ i.queries ∧ misdirectedWriter.codeFor q.argument q.site q.phase q.name 0 =
      .error (.located d) ∧
    q.argument.type = TypeTree.text type ∧
    d.PointsAt misdirected type.name.first.token type.text ∧ d.line = some 4 ∧
    d.column = some 3 ∧ d.message = "Cannot marshall 'inout String'." := by
  have hLexed : (Scan.lexemes misdirectedChars.1).2 = none := by decide +kernel
  have hRun : (Interface.ofTokens misdirectedSource.tokens).toOption.join.map (fun i =>
      (misdirectedWriter.encodeInterface i {}).answer {}) =
      some (.error (.located ⟨.unsupported, "Cannot marshall 'inout String'.",
        some "IStore.aidl2", some 4, some 3, some "\t\tString b);"⟩)) := by
    decide +kernel
  have hFeeds : Text.FeedsOnly misdirected.toList := by
    intro c hc hBreak
    rw [misdirectedChars.2, String.toList_ofList] at hc
    have hAll : (misdirectedChars.1.all fun c => !Text.isLineBreak c || c == '\n') = true := rfl
    simpa [hBreak] using List.all_eq_true.mp hAll c hc
  have hRead : Source.read (some "IStore.aidl2") misdirected = .ok misdirectedSource :=
    Source.read_of_lexemes misdirectedChars.2 hLexed _
  obtain ⟨i, hTokens, hAnswer⟩ := Interface.exists_of_run hRun
  have hParse := Interface.ofSource_of_ofTokens hTokens
  cases hEncode : misdirectedWriter.encodeInterface i {} {} with
  | ok text e =>
      rw [Encoding.answer_of_ok hEncode] at hAnswer
      cases hAnswer
  | error fault e =>
      rw [Encoding.answer_of_error hEncode] at hAnswer
      cases hAnswer
      rcases pointsAt_of_encodeInterface hFeeds hRead hParse rfl hEncode with
        ⟨f, type, hLookup, _⟩ | ⟨d, q, m, n, type, name, hFault, hq, hCode, _, _, hType, _, _,
          hPoints, _⟩
      · cases hLookup
      · cases hFault
        exact ⟨i, _, e, q, type, hRead, hParse, hEncode, hq, hCode, hType, hPoints, rfl, rfl, rfl⟩

end Writer

end BinderIdl
