import BinderIdl.Proofs.Stub.Plain

/-! The groups of lines of a generated file. Each group leads from one depth of braces to
another, whatever its words and comments are. -/
namespace BinderIdl

open Java

namespace Java

variable {s t : String} {cs bs : List Char} {ls : List String} {d e f : Nat}

/-- A fixed text is code with its braces if it has neither slashes nor quotes. -/
theorem Code.fixed (h : (cs.all fun c => c != '/' && c != '\x22') = true) :
    Code (String.ofList cs) (braces cs) := by
  rw [List.all_eq_true] at h
  refine ⟨.of_not_mem (fun hc => ?_) (fun hc => ?_), by rw [String.toList_ofList]⟩
  · rw [String.toList_ofList] at hc
    cases h _ hc
  · rw [String.toList_ofList] at hc
    cases h _ hc

theorem Nests.fixed (h : (cs.all fun c => c != '/' && c != '\x22') = true)
    (hDepth : depth? d (braces cs) = some e) : Nests (String.ofList cs) d e :=
  (Code.fixed h).nests hDepth

theorem Nests.word (h : Java.Plain s) : Nests s d d := (Code.word h).nests rfl

theorem Nests.fixedComment (h : afterComment? cs = some []) :
    Nests (String.ofList ('/' :: '*' :: cs)) d d := by
  apply Nests.comment
  rw [String.toList_ofList]
  exact .of_afterComment? h

theorem Nests.line (h : Nests s d e) (depth : Nat) : Nests (lineAt depth s) d e :=
  ((code_pad depth).nests rfl).append h

theorem Nests.fragment {frag : Fragment} (h : Nests s d d) (hPlain : frag.Plain) (depth : Nat) :
    Nests (fragmentAt depth s frag) d d := by
  obtain ⟨bs, hCode, hDepth⟩ := Fragment.code_text hPlain
  exact (h.append ((hCode.hang _).nests (hDepth d))).line depth

theorem Spans.line {depth : Nat} (h : Nests s d e) (hRest : Spans ls e f) :
    Spans (lineAt depth s :: ls) d f :=
  .cons (h.line depth) hRest

theorem Spans.blank (h : Spans ls d e) : Spans ("" :: ls) d e := .cons (.fixed rfl rfl) h

theorem Nests.remark (h : Inside s.toList) : Nests ("/*" ++ s ++ "*/") d d := by
  have hText : ("/*" ++ s ++ "*/").toList = '/' :: '*' :: (s.toList ++ ['*', '/']) := by simp
  apply Nests.comment
  rw [hText]
  exact h.isComment

/-- A comment of three lines. -/
theorem Spans.remark {depth : Nat} (h : Java.Plain s) (hRest : Spans ls d e) :
    Spans ([lineAt depth "/**", lineAt depth s, lineAt depth " */"] ++ ls) d e := by
  have hPlain : Java.Plain ("*\n" ++ lineAt depth s ++ "\n" ++ Stmt.pad depth ++ " ") := by
    simp only [plain_append, lineAt]
    exact ⟨⟨⟨⟨plain_literal rfl, plain_pad depth, h⟩, plain_literal rfl⟩, plain_pad depth⟩,
      plain_literal rfl⟩
  have hInside := Inside.of_not_mem (hPlain.not_mem rfl) (by
    rw [String.toList_append, List.getLast?_append]
    simp)
  have hText : String.join
      ([lineAt depth "/**", lineAt depth s, lineAt depth " */"].map fun line => line ++ "\n") =
      String.join ([lineAt depth ("/*" ++ ("*\n" ++ lineAt depth s ++ "\n" ++ Stmt.pad depth ++ " ") ++
        "*/")].map fun line => line ++ "\n") := by
    rw [← String.toList_inj]
    simp [lineAt]
  refine .append ?_ hRest
  rw [Spans, hText]
  exact Spans.singleton ((Nests.remark hInside).line depth)

theorem Spans.words {depth : Nat} (h : ∀ l ∈ ls, Java.Plain l) :
    Spans (ls.map (lineAt depth)) d d := by
  induction ls with
  | nil => exact .nil
  | cons l ls ih =>
      rw [List.forall_mem_cons] at h
      exact .line (.word h.1) (ih h.2)

theorem Spans.one {depth : Nat} (h : Nests s d e) : Spans [lineAt depth s] d e := .line h .nil

end Java

theorem spans_docLines {doc : Option String} (h : ∀ text ∈ doc, IsComment text.toList)
    (depth d : Nat) : Spans (docLines depth doc) d d := by
  cases doc with
  | none => exact .nil
  | some text =>
      rw [docLines]
      split
      · exact .nil
      · exact .one (.comment (h text rfl))

namespace Interface

theorem spans_dispatcherHead : Spans dispatcherHead 2 4 := by
  refine .line (.fixed rfl rfl) (.line ((Nests.fixed rfl rfl).append (.fixed rfl rfl)) ?_)
  iterate 5 refine .line (.fixed rfl rfl) ?_
  exact .nil

theorem spans_dispatcherTail : Spans dispatcherTail 4 2 := by
  iterate 3 refine .line (.fixed rfl rfl) ?_
  exact .nil

theorem spans_mainThreadLines : Spans mainThreadLines 2 2 := by
  refine .blank (.line ((Nests.fixed rfl rfl).append (.fixed rfl rfl)) ?_)
  iterate 24 refine .line (.fixed rfl rfl) ?_
  exact .nil

/-- The arguments of a plain interface are plain. -/
theorem Plain.typeArguments {i : Interface} (h : i.Plain) : Java.Plain i.typeArguments := by
  have hNames : ∀ name ∈ i.typeParameters.map TypeParameter.name, Java.Plain name := by
    rw [List.forall_mem_map]
    exact fun p hp => (h.typeParameters p hp).name
  rw [Interface.typeArguments]
  cases hParameters : i.typeParameters with
  | nil => exact plain_literal rfl
  | cons p ps =>
      rw [hParameters] at hNames
      refine plain_append.mpr ⟨plain_append.mpr ⟨plain_literal rfl, ?_⟩, plain_literal rfl⟩
      exact plain_join (plain_literal rfl) hNames

section

variable {i : Interface} (h : i.Plain)

include h

theorem Plain.typeBlockText : Java.Plain i.typeBlockText := by
  rw [Interface.typeBlockText]
  cases hBlock : i.typeBlock with
  | none => exact plain_literal rfl
  | some block => exact h.typeBlock block hBlock

/-- The package and the imported names. -/
theorem Plain.spans_headerLines : Spans i.headerLines 0 0 := by
  have hPackage : Nests ("package " ++ i.package ++ ";") 0 0 :=
    ((Nests.fixed rfl rfl).append (.word h.package)).append (.fixed rfl rfl)
  have hImports : ∀ es : List Import, (∀ e ∈ es, Java.Plain e.name) →
      Spans (es.map fun e => "import " ++ e.name ++ ";") 0 0 := by
    intro es hes
    induction es with
    | nil => exact .nil
    | cons e es ih =>
        rw [List.forall_mem_cons] at hes
        exact .cons (((Nests.fixed rfl rfl).append (.word hes.1)).append (.fixed rfl rfl))
          (ih hes.2)
  refine ((Spans.singleton hPackage).append ?_).append (.blank .nil)
  cases i.imports.isEmpty with
  | true => exact .nil
  | false => exact .blank (hImports i.imports h.imports)

theorem Plain.appliedName : Java.Plain i.appliedName :=
  plain_append.mpr ⟨h.name, h.typeArguments⟩

/-- The stub behind the line that declares it, up to the method that wraps a binder. -/
theorem Plain.spans_stubHead : Spans (i.stubHead.drop 2) 2 2 := by
  have hQualified : Java.Plain i.qualifiedName := plain_qualify h.package h.name
  have hLiteral : Nests ("\"" ++ i.qualifiedName ++ "\"") 2 2 :=
    .literal (hQualified.not_mem rfl) (hQualified.not_mem rfl) (hQualified.not_mem rfl)
  have hDescriptor : Nests ("private static final java.lang.String DESCRIPTOR = \"" ++
      i.qualifiedName ++ "\";") 2 2 := by
    have hText : "private static final java.lang.String DESCRIPTOR = \"" ++ i.qualifiedName ++ "\";" =
        "private static final java.lang.String DESCRIPTOR = " ++ ("\"" ++ i.qualifiedName ++ "\"") ++
          ";" := by
      simp [← String.toList_inj]
    rw [hText]
    exact ((Nests.fixed rfl rfl).append hLiteral).append (.fixed rfl rfl)
  refine .line hDescriptor (.blank (.line (.fixedComment rfl) ?_))
  iterate 3 refine .line (.fixed rfl rfl) ?_
  exact .blank .nil

theorem Plain.spans_asInterfaceHead : Spans i.asInterfaceHead 2 3 := by
  have hRemark : Java.Plain (" * Cast an IBinder object into an " ++ i.name ++
      " interface, generating a proxy if needed.") :=
    plain_append.mpr ⟨plain_append.mpr ⟨plain_literal rfl, h.name⟩, plain_literal rfl⟩
  refine .remark hRemark ?_
  by_cases hBlock : i.typeBlockText = ""
  · rw [if_pos hBlock]
    exact .one (((Nests.fixed rfl rfl).append (.word h.name)).append (.fixed rfl rfl))
  · have hLiteral : Nests ("\"" ++ "unchecked" ++ "\"") 2 2 :=
      .literal (by decide) (by decide) (by decide)
    have hText : "@SuppressWarnings(\"unchecked\")" =
        "@SuppressWarnings(" ++ ("\"" ++ "unchecked" ++ "\"") ++ ")" := by decide
    rw [if_neg hBlock, hText]
    refine .line (((Nests.fixed rfl rfl).append hLiteral).append (.fixed rfl rfl)) (.one ?_)
    exact ((((Nests.fixed rfl rfl).append (.word h.typeBlockText)).append (.fixed rfl rfl)).append
      (.word h.appliedName)).append (.fixed rfl rfl)

theorem Plain.spans_asInterfaceBody : Spans i.asInterfaceBody 3 2 := by
  iterate 4 refine .line (.fixed rfl rfl) ?_
  refine .line (((Nests.fixed rfl rfl).append (.word h.name)).append (.fixed rfl rfl)) ?_
  refine .line (((Nests.fixed rfl rfl).append (.word h.appliedName)).append (.fixed rfl rfl)) ?_
  refine .line (.fixed rfl rfl) ?_
  refine .line (((((Nests.fixed rfl rfl).append (.word h.name)).append (.fixed rfl rfl)).append
    (.word h.typeArguments)).append (.fixed rfl rfl)) ?_
  refine .line (.fixed rfl rfl) (.blank ?_)
  iterate 4 refine .line (.fixed rfl rfl) ?_
  exact .blank .nil

theorem Plain.spans_proxyHead : Spans i.proxyHead 2 3 := by
  refine .line (((((Nests.fixed rfl rfl).append (.word h.typeBlockText)).append
    (.fixed rfl rfl)).append (.word h.appliedName)).append (.fixed rfl rfl)) ?_
  refine .line (.fixed rfl rfl) (.blank ?_)
  iterate 3 refine .line (.fixed rfl rfl) ?_
  refine .blank ?_
  iterate 4 refine .line (.fixed rfl rfl) ?_
  refine .blank ?_
  iterate 3 refine .line (.fixed rfl rfl) ?_
  exact .nil

end

end Interface

theorem Java.plain_boxed {type : String} (h : Java.Plain type) : Java.Plain (boxed type) := by
  rw [boxed]
  cases hBox : boxes.lookup type with
  | none => exact h
  | some box =>
      have hBoxes : ∀ p ∈ boxes, Java.Plain p.2 := by
        iterate 9 refine List.forall_mem_cons.mpr ⟨plain_literal rfl, ?_⟩
        exact List.forall_mem_nil _
      obtain ⟨before, after, hSplit, -⟩ := List.lookup_eq_some_iff.mp hBox
      exact hBoxes (type, box) (by rw [hSplit]; simp)

/-- The words of a step are plain. -/
def DispatchStep.Plain : DispatchStep → Prop
  | receive a => a.Plain
  | task type body => Java.Plain type ∧ ∀ line ∈ body, Java.Plain line
  | declareResult type name => Java.Plain type ∧ Java.Plain name
  | guarded call | unguarded call => Java.Plain call
  | giveBack code => code.Plain
  | enforce | confirm | finish => True

theorem DispatchStep.spans_lines (step : DispatchStep) (h : step.Plain) (d : Nat) :
    Spans step.lines d d := by
  cases step with
  | enforce => exact .one (.fixed rfl rfl)
  | receive a =>
      refine .singleton (.fragment ?_ h.receive depth)
      exact (((Nests.fixed rfl rfl).append (.word h.argument.type)).append (.fixed rfl rfl)).append
        (.word (plain_argumentLocal a.index))
  | task type body =>
      have hTail : Spans [lineAt (depth + 3) "\x7d", lineAt (depth + 2) "\x7d);"] (d + 2) d :=
        .line (.fixed rfl rfl) (.one (.fixed rfl rfl))
      have hTask : Nests ("final java.util.concurrent.FutureTask<" ++ type ++
          "> _task = new java.util.concurrent.FutureTask<" ++ type ++ ">(") d d :=
        ((((Nests.fixed rfl rfl).append (.word h.1)).append (.fixed rfl rfl)).append
          (.word h.1)).append (.fixed rfl rfl)
      have hClass : Nests ("new java.util.concurrent.Callable<" ++ type ++ ">() \x7b") d (d + 1) :=
        ((Nests.fixed rfl rfl).append (.word h.1)).append (.fixed rfl rfl)
      have hCall : Nests ("public " ++ type ++ " call() throws Exception \x7b") (d + 1) (d + 2) :=
        ((Nests.fixed rfl rfl).append (.word h.1)).append (.fixed rfl rfl)
      exact ((Spans.line hTask (.line hClass (.line (.fixed rfl rfl) (.one hCall)))).append
        (.words h.2)).append hTail
  | declareResult type name =>
      exact .one ((((Nests.fixed rfl rfl).append (.word h.1)).append (.fixed rfl rfl)).append
        (.word h.2) |>.append (.fixed rfl rfl))
  | guarded call =>
      refine .line (.fixed rfl rfl) (.line ((Nests.word h).append (.fixed rfl rfl)) ?_)
      iterate 4 refine .line (.fixed rfl rfl) ?_
      exact .nil
  | unguarded call => exact .one ((Nests.word h).append (.fixed rfl rfl))
  | confirm => exact .one (.fixed rfl rfl)
  | giveBack code => exact .singleton (.fragment (.fixed rfl rfl) h depth)
  | finish => exact .one (.fixed rfl rfl)

/-- The words of a step are plain. -/
def RequestStep.Plain : RequestStep → Prop
  | send code | takeBack code => code.Plain
  | post transaction | transact transaction => Java.Plain transaction
  | result type name code => Java.Plain type ∧ Java.Plain name ∧ code.Plain
  | give name => Java.Plain name
  | token | rethrow => True

theorem RequestStep.spans_lines (step : RequestStep) (h : step.Plain) (d : Nat) :
    Spans step.lines d d := by
  cases step with
  | token => exact .one (.fixed rfl rfl)
  | send code => exact .singleton (.fragment (.fixed rfl rfl) h depth)
  | post transaction =>
      exact .one (((Nests.fixed rfl rfl).append (.word h)).append (.fixed rfl rfl))
  | transact transaction =>
      exact .one (((Nests.fixed rfl rfl).append (.word h)).append (.fixed rfl rfl))
  | rethrow => exact .one (.fixed rfl rfl)
  | result type name code =>
      refine .singleton (.fragment ?_ h.2.2 depth)
      exact (((Nests.fixed rfl rfl).append (.word h.1)).append (.fixed rfl rfl)).append
        (.word h.2.1)
  | takeBack code => exact .singleton (.fragment (.fixed rfl rfl) h depth)
  | give name => exact .one (((Nests.fixed rfl rfl).append (.word h)).append (.fixed rfl rfl))

namespace MethodCode

theorem plain_localNames (m : MethodCode) : Java.Plain m.localNames := by
  apply plain_join (plain_literal rfl)
  rw [List.forall_mem_map]
  exact fun a _ => plain_argumentLocal a.index

/-- What is left of plain fragments is plain. -/
theorem plain_present {fragments : List Fragment} (h : ∀ f ∈ fragments, f.Plain) :
    ∀ f ∈ present fragments, f.Plain :=
  fun f hf => h f (List.mem_filter.mp hf).1

section

variable {m : MethodCode} (h : m.Plain)

include h

theorem Plain.parameters : Java.Plain m.parameters := by
  apply plain_join (plain_literal rfl)
  rw [List.forall_mem_map]
  intro a ha
  have hArgument := (h.arguments a ha).argument
  exact plain_append.mpr ⟨plain_append.mpr ⟨hArgument.type, plain_literal rfl⟩, hArgument.name⟩

theorem Plain.nests_signature (d : Nat) : Nests m.signature d d :=
  (((((Nests.fixed rfl rfl).append (.word h.method.returnType)).append (.fixed rfl rfl)).append
    (.word h.method.name)).append (.fixed rfl rfl)).append (.word h.parameters) |>.append
      (.fixed rfl rfl)

/-- The call of the method at a target. -/
theorem Plain.invocation {target stop : String} (hTarget : Java.Plain target)
    (hStop : Java.Plain stop) :
    Java.Plain (target ++ m.method.name ++ "(" ++ m.localNames ++ stop) :=
  plain_append.mpr ⟨plain_append.mpr ⟨plain_append.mpr ⟨plain_append.mpr ⟨hTarget, h.method.name⟩,
    plain_literal rfl⟩, m.plain_localNames⟩, hStop⟩

theorem Plain.taskBody : ∀ line ∈ m.taskBody, Java.Plain line := by
  have hCall : Java.Plain ("Stub.this." ++ m.method.name ++ "(" ++ m.localNames ++ ");") :=
    h.invocation (plain_literal rfl) (plain_literal rfl)
  rw [MethodCode.taskBody]
  cases m.result with
  | none =>
      refine List.forall_mem_cons.mpr ⟨hCall, List.forall_mem_singleton.mpr ?_⟩
      exact plain_literal rfl
  | some r => exact List.forall_mem_singleton.mpr (plain_append.mpr ⟨plain_literal rfl, hCall⟩)

theorem Plain.call : Java.Plain m.call := by
  have hCall : Java.Plain (if m.method.isMainthread then "runOnMainThread(_task)"
      else "this." ++ m.method.name ++ "(" ++ m.localNames ++ ")") := by
    cases m.method.isMainthread with
    | true => exact plain_literal rfl
    | false => exact h.invocation (plain_literal rfl) (plain_literal rfl)
  rw [MethodCode.call]
  cases hResult : m.result with
  | none => exact hCall
  | some r =>
      have hName := (h.result r hResult).argument.name
      exact plain_append.mpr ⟨plain_append.mpr ⟨hName, plain_literal rfl⟩, hCall⟩

theorem Plain.dispatch : ∀ step ∈ m.dispatch, step.Plain := by
  have hGiven : ∀ f ∈ m.givenBack, f.Plain := by
    apply plain_present
    rw [List.forall_mem_map]
    exact fun a ha => (h.arguments a ha).giveBack
  simp only [MethodCode.dispatch, List.forall_mem_append, List.forall_mem_map]
  refine ⟨⟨⟨⟨⟨⟨⟨⟨?_, fun a ha => h.arguments a ha⟩, ?_⟩, ?_⟩, ?_⟩, ?_⟩, ?_⟩, hGiven⟩, ?_⟩
  · exact List.forall_mem_singleton.mpr trivial
  · cases m.method.isMainthread with
    | true => exact List.forall_mem_singleton.mpr ⟨plain_boxed h.method.returnType, h.taskBody⟩
    | false => exact List.forall_mem_nil _
  · cases hResult : m.result with
    | none => exact List.forall_mem_nil _
    | some r =>
        exact List.forall_mem_singleton.mpr
          ⟨h.method.returnType, (h.result r hResult).argument.name⟩
  · cases m.method.isLocalthrow || m.method.isOneway with
    | true => exact List.forall_mem_singleton.mpr h.call
    | false => exact List.forall_mem_singleton.mpr h.call
  · cases m.method.isOneway with
    | true => exact List.forall_mem_nil _
    | false => exact List.forall_mem_singleton.mpr trivial
  · cases hResult : m.result with
    | none => exact List.forall_mem_nil _
    | some r =>
        rw [List.forall_mem_map]
        exact plain_present (List.forall_mem_singleton.mpr (h.result r hResult).giveBack)
  · exact List.forall_mem_singleton.mpr trivial

theorem Plain.response : ∀ step ∈ m.response, step.Plain := by
  have hTaken : ∀ f ∈ m.takenBack, f.Plain := by
    apply plain_present
    rw [List.forall_mem_map]
    exact fun a ha => (h.arguments a ha).takeBack
  simp only [MethodCode.response, List.forall_mem_append, List.forall_mem_map]
  refine ⟨⟨⟨?_, ?_⟩, hTaken⟩, ?_⟩
  · exact List.forall_mem_cons.mpr ⟨h.transaction, List.forall_mem_singleton.mpr trivial⟩
  · cases hResult : m.result with
    | none => exact List.forall_mem_nil _
    | some r =>
        have hPlain := h.result r hResult
        exact List.forall_mem_singleton.mpr
          ⟨h.method.returnType, hPlain.argument.name, hPlain.takeBack⟩
  · cases hResult : m.result with
    | none => exact List.forall_mem_nil _
    | some r => exact List.forall_mem_singleton.mpr (h.result r hResult).argument.name

theorem Plain.request : ∀ step ∈ m.request, step.Plain := by
  have hSent : ∀ f ∈ m.sent, f.Plain := by
    apply plain_present
    rw [List.forall_mem_map]
    exact fun a ha => (h.arguments a ha).send
  simp only [MethodCode.request, List.forall_mem_append, List.forall_mem_map]
  refine ⟨⟨List.forall_mem_singleton.mpr trivial, hSent⟩, ?_⟩
  cases m.method.isOneway with
  | true => exact List.forall_mem_singleton.mpr h.transaction
  | false => exact h.response

theorem Plain.spans_caseLines (d : Nat) : Spans m.caseLines d d := by
  have hHead : Spans [lineAt 4 ("case " ++ m.transaction ++ ": \x7b")] d (d + 1) :=
    .one (((Nests.fixed rfl rfl).append (.word h.transaction)).append (.fixed rfl rfl))
  have hSteps : Spans (m.dispatch.flatMap DispatchStep.lines) (d + 1) (d + 1) :=
    .flatMap fun step hStep => step.spans_lines (h.dispatch step hStep) _
  exact (hHead.append hSteps).append (.one (.fixed rfl rfl))

theorem Plain.spans_proxyLines (d : Nat) : Spans m.proxyLines d d := by
  have hHead : Spans ["", lineAt 3 "@Override", lineAt 3 (m.signature ++ " \x7b"),
      lineAt 4 "final android.os.Parcel _data = android.os.Parcel.obtain();"] d (d + 1) :=
    .blank (.line (.fixed rfl rfl) (.line ((h.nests_signature d).append (.fixed rfl rfl))
      (.one (.fixed rfl rfl))))
  have hObtain : ∀ waits : Bool, Spans (if waits then
      [lineAt 4 "final android.os.Parcel _reply = android.os.Parcel.obtain();"] else [])
      (d + 1) (d + 1) := by
    intro waits
    cases waits with
    | true => exact .one (.fixed rfl rfl)
    | false => exact .nil
  have hTry : Spans [lineAt 4 "try \x7b"] (d + 1) (d + 2) := .one (.fixed rfl rfl)
  have hSteps : Spans (m.request.flatMap RequestStep.lines) (d + 2) (d + 2) :=
    .flatMap fun step hStep => step.spans_lines (h.request step hStep) _
  have hFinally : Spans [lineAt 4 "\x7d finally \x7b"] (d + 2) (d + 2) := .one (.fixed rfl rfl)
  have hRecycle : ∀ waits : Bool, Spans (if waits then [lineAt 5 "_reply.recycle();"] else [])
      (d + 2) (d + 2) := by
    intro waits
    cases waits with
    | true => exact .one (.fixed rfl rfl)
    | false => exact .nil
  have hTail : Spans [lineAt 5 "_data.recycle();", lineAt 4 "\x7d", lineAt 3 "\x7d"] (d + 2) d :=
    .line (.fixed rfl rfl) (.line (.fixed rfl rfl) (.one (.fixed rfl rfl)))
  exact (((((hHead.append (hObtain _)).append hTry).append hSteps).append hFinally).append
    (hRecycle _)).append hTail

theorem Plain.spans_declarationLines (d : Nat) : Spans (Interface.declarationLines m) d d := by
  have hLine : Spans [lineAt 1 (m.signature ++ ";")] d d :=
    .one ((h.nests_signature d).append (.fixed rfl rfl))
  exact ((Spans.blank .nil).append (spans_docLines h.method.javadoc 1 d)).append hLine

theorem Plain.spans_constantLines (d : Nat) : Spans (Interface.constantLines m) d d :=
  .blank (.one (((((Nests.fixed rfl rfl).append (.word h.transaction)).append
    (.fixed rfl rfl)).append (.word (plain_toString m.index))).append (.fixed rfl rfl)))

end

end MethodCode

end BinderIdl
