/-
How the whole generated text is read.

The header, the classes and the stubs follow each other, so the text is parsed
as the statements of the classes and the stubs.  A NUL, which no source text may
hold, can only come from a text that is written into a comment.
-/
import Lambpie.Scripts.PieSyntax

namespace Lambpie.Scripts

open Foundations
open Foundations.Python

section Text

variable {lexis : Lexis}

def commentTexts (parsed : ParsedModel) (serviceName outputPath : String) :
    List String :=
  [parsed.service.serviceId.getD serviceName, parsed.service.protocol,
      parsed.service.apiVersion, serviceName, outputPath] ++
    parsed.operations.flatMap fun operation =>
      [operation.httpMethod, operation.httpUri]

def serviceComment (serviceId protocol apiVersion : String) : String :=
  s!"# Service: {serviceId}  Protocol: {protocol}  API version: {apiVersion}"

def commandComment (serviceName outputPath : String) : String :=
  s!"#   python scripts/parse_models.py {serviceName} --output {outputPath}"

private theorem pieHeader_eq (serviceId protocol apiVersion serviceName outputPath : String) :
    pieHeader serviceId protocol apiVersion serviceName outputPath =
      "# Auto-generated by scripts/parse_models.py from botocore model." ++ "\n" ++
        (serviceComment serviceId protocol apiVersion ++ "\n" ++
          ("# DO NOT EDIT BY HAND — regenerate with:" ++ "\n" ++
            (commandComment serviceName outputPath ++ "\n" ++ ""))) := by
  have lines : pieHeader serviceId protocol apiVersion serviceName outputPath =
      "# Auto-generated by scripts/parse_models.py from botocore model." ++ "\n" ++
        (serviceComment serviceId protocol apiVersion ++ "\n") ++
        ("# DO NOT EDIT BY HAND — regenerate with:" ++ "\n") ++
        (commandComment serviceName outputPath ++ "\n") := rfl
  rw [lines, String.append_empty]
  simp only [String.append_assoc]

private theorem serviceComment_eq (serviceId protocol apiVersion : String) :
    serviceComment serviceId protocol apiVersion =
      "# Service: " ++ serviceId ++ "  Protocol: " ++ protocol ++ "  API version: " ++
        apiVersion :=
  rfl

private theorem commandComment_eq (serviceName outputPath : String) :
    commandComment serviceName outputPath =
      "#   python scripts/parse_models.py " ++ serviceName ++ " --output " ++
        outputPath :=
  rfl

private theorem without_serviceComment {bad : Char → Bool} (control : Control bad)
    {serviceId protocol apiVersion : String} (service : Without bad serviceId)
    (spoken : Without bad protocol) (version : Without bad apiVersion) :
    Without bad (serviceComment serviceId protocol apiVersion) := by
  rw [serviceComment_eq]
  exact (((((without_printable control rfl).append service).append
    (without_printable control rfl)).append spoken).append
      (without_printable control rfl)).append version

private theorem without_commandComment {bad : Char → Bool} (control : Control bad)
    {serviceName outputPath : String} (name : Without bad serviceName)
    (path : Without bad outputPath) :
    Without bad (commandComment serviceName outputPath) := by
  rw [commandComment_eq]
  exact (((without_printable control rfl).append name).append
    (without_printable control rfl)).append path

private theorem reads_header {serviceId protocol apiVersion serviceName outputPath : String}
    (service : Unbroken (serviceComment serviceId protocol apiVersion))
    (command : Unbroken (commandComment serviceName outputPath)) :
    Reads lexis
      [rstrip (pieHeader serviceId protocol apiVersion serviceName outputPath)] [] := by
  apply Reads.of_comments
  apply comments_rstrip
  rw [pieHeader_eq]
  have serviceStarts : (serviceComment serviceId protocol apiVersion).toList =
      '#' :: (" Service: " ++ serviceId ++ "  Protocol: " ++ protocol ++
        "  API version: " ++ apiVersion).toList := by
    rw [serviceComment_eq]
    simp only [String.toList_append]
    rfl
  have commandStarts : (commandComment serviceName outputPath).toList =
      '#' :: ("   python scripts/parse_models.py " ++ serviceName ++ " --output " ++
        outputPath).toList := by
    rw [commandComment_eq]
    simp only [String.toList_append]
    rfl
  apply comments_append (without_printable control_lineBreak rfl) rfl
  apply comments_append service serviceStarts
  apply comments_append (without_printable control_lineBreak rfl) rfl
  apply comments_append command commandStarts
  intro chars inside
  exact .inl (List.mem_singleton.mp inside)

private theorem reads_stubComment : Reads lexis [rstrip pieStubComment] [] := by
  have lines : pieStubComment =
      "# --- Operation stubs ---" ++ "\n" ++
        ("# These are placeholder function signatures." ++ "\n" ++
          ("# Actual HTTP dispatch will be implemented in .pie once SigV4 is ready." ++
            "\n" ++ "")) := rfl
  apply Reads.of_comments
  apply comments_rstrip
  rw [lines]
  apply comments_append (without_printable control_lineBreak rfl) rfl
  apply comments_append (without_printable control_lineBreak rfl) rfl
  apply comments_append (without_printable control_lineBreak rfl) rfl
  intro chars inside
  exact .inl (List.mem_singleton.mp inside)

private theorem reads_heading {α : Type} (items : List α) {heading : String}
    (reads : Reads lexis [heading] []) :
    Reads lexis (if items = [] then [] else [heading, ""]) [] := by
  split
  · exact reads_nil
  · exact reads.cons reads_blank

/-- The names of everything that is written. -/
structure ParsedNames (lexis : Lexis) (parsed : ParsedModel) : Prop where
  classes : ∀ item ∈ generatePieClasses parsed.shapes, ClassNames lexis item
  stubs : ∀ operation ∈ parsed.operations, StubNames lexis parsed.shapes operation

def pieStatements (lexis : Lexis) (parsed : ParsedModel) : List Statement :=
  (generatePieClasses parsed.shapes).map (classStatement lexis) ++
    parsed.operations.map (stubStatement lexis parsed.shapes)

private theorem reads_pieLines {parsed : ParsedModel} {serviceName outputPath : String}
    (names : ParsedNames lexis parsed)
    (unbroken : ∀ text ∈ commentTexts parsed serviceName outputPath, Unbroken text) :
    Reads lexis (pieLines parsed serviceName outputPath)
      ((pieStatements lexis parsed).flatMap (Statement.lines 4)) := by
  have serviceText : Unbroken (serviceComment
      (parsed.service.serviceId.getD serviceName) parsed.service.protocol
      parsed.service.apiVersion) :=
    without_serviceComment control_lineBreak (unbroken _ (by simp [commentTexts]))
      (unbroken _ (by simp [commentTexts])) (unbroken _ (by simp [commentTexts]))
  have commandText : Unbroken (commandComment serviceName outputPath) :=
    without_commandComment control_lineBreak (unbroken _ (by simp [commentTexts]))
      (unbroken _ (by simp [commentTexts]))
  have header := (@reads_header lexis _ _ _ _ _ serviceText commandText).cons reads_blank
  have typeHeading : Reads lexis ["# --- Type definitions ---"] [] :=
    Reads.of_comments (comment_line (without_printable control_lineBreak rfl) rfl)
  have classes : Reads lexis ((emittedClasses parsed.shapes).flatMap (·.2))
      (((generatePieClasses parsed.shapes).map (classStatement lexis)).flatMap
        (Statement.lines 4)) := by
    unfold emittedClasses
    rw [List.flatMap_map, List.flatMap_map]
    exact reads_flatMap fun item inside => reads_class (names.classes item inside)
  have stubs : Reads lexis (parsed.operations.flatMap (stubLines parsed.shapes))
      ((parsed.operations.map (stubStatement lexis parsed.shapes)).flatMap
        (Statement.lines 4)) := by
    rw [List.flatMap_map]
    apply reads_flatMap
    intro operation inside
    have listed (text : String)
        (inTexts : text ∈ [operation.httpMethod, operation.httpUri]) :
        text ∈ commentTexts parsed serviceName outputPath :=
      List.mem_append_right _ (List.mem_flatMap.mpr ⟨operation, inside, inTexts⟩)
    exact reads_stub (names.stubs operation inside)
      (unbroken _ (listed _ List.mem_cons_self))
      (unbroken _ (listed _ (List.mem_cons_of_mem _ List.mem_cons_self)))
  have whole := (((header.append (reads_heading (emittedClasses parsed.shapes)
    typeHeading)).append classes).append
      (reads_heading parsed.operations reads_stubComment)).append stubs
  unfold pieStatements pieLines
  rw [List.flatMap_append]
  simp only [List.append_nil, List.nil_append] at whole
  exact whole

/-- The text is parsed as the classes and the stubs, unless it holds a NUL. -/
theorem parse_generatePie {parsed : ParsedModel} {serviceName outputPath : String}
    (names : ParsedNames lexis parsed)
    (unbroken : ∀ text ∈ commentTexts parsed serviceName outputPath, Unbroken text)
    (noNul : '\x00' ∉ (generatePie parsed serviceName outputPath).toList) :
    lexis.parse (generatePie parsed serviceName outputPath) =
      some (pieStatements lexis parsed) := by
  have nonempty : pieLines parsed serviceName outputPath ≠ [] := List.cons_ne_nil _ _
  apply Lexis.parse_of_lines (by decide : (4 : Nat) ≠ 0) noNul
  unfold generatePie
  rw [physicalLines_intercalate nonempty]
  exact reads_pieLines names unbroken

def isNul (c : Char) : Bool := c = '\x00'

private theorem control_nul : Control isNul := by
  intro c found
  rw [of_decide_eq_true found]
  decide

theorem Without.rstrip {bad : Char → Bool} {text : String} (free : Without bad text) :
    Without bad (rstrip text) :=
  fun c inside => free c ((rstrip_begins text).subset inside)

private theorem mem_rstrip {text : String} {c : Char} (inside : c ∈ text.toList)
    (kept : isspace c = false) : c ∈ (rstrip text).toList := by
  have split : text.toList.rdropWhile isspace ++ text.toList.rtakeWhile isspace =
      text.toList := List.rdropWhile_append_rtakeWhile
  rw [← split, List.mem_append] at inside
  rw [Scripts.rstrip, String.toList_ofList]
  rcases inside with stays | dropped
  · exact stays
  · rw [List.mem_rtakeWhile_imp dropped] at kept
    cases kept

private theorem mem_pieHeader {serviceId protocol apiVersion serviceName outputPath text : String}
    (listed : text ∈ [serviceId, protocol, apiVersion, serviceName, outputPath])
    {c : Char} (inside : c ∈ text.toList) :
    c ∈ (pieHeader serviceId protocol apiVersion serviceName outputPath).toList := by
  rw [pieHeader_eq, serviceComment_eq, commandComment_eq]
  simp only [String.toList_append, List.mem_append]
  simp only [List.mem_cons, List.not_mem_nil, or_false] at listed
  rcases listed with rfl | rfl | rfl | rfl | rfl <;> simp only [inside, true_or, or_true]

private theorem without_pieHeader
    {serviceId protocol apiVersion serviceName outputPath : String}
    (free : ∀ text ∈ [serviceId, protocol, apiVersion, serviceName, outputPath],
      Without isNul text) :
    Without isNul (pieHeader serviceId protocol apiVersion serviceName outputPath) := by
  have service : Without isNul (serviceComment serviceId protocol apiVersion) :=
    without_serviceComment control_nul (free _ (by simp)) (free _ (by simp))
      (free _ (by simp))
  have command : Without isNul (commandComment serviceName outputPath) :=
    without_commandComment control_nul (free _ (by simp)) (free _ (by simp))
  have broken : Without isNul "\n" := without_literal rfl
  rw [pieHeader_eq]
  apply ((without_printable control_nul rfl).append broken).append
  apply (service.append broken).append
  apply ((without_printable control_nul rfl).append broken).append
  exact (command.append broken).append (without_literal rfl)

private theorem without_stubComment : Without isNul pieStubComment := by
  unfold pieStubComment
  exact ((without_literal rfl).append (without_literal rfl)).append (without_literal rfl)

private theorem without_heading {α : Type} (items : List α) {heading : String}
    (free : Without isNul heading) :
    ∀ piece ∈ (if items = [] then [] else [heading, ""] : List String),
      Without isNul piece := by
  intro piece inside
  split at inside
  · cases inside
  · rcases List.mem_cons.mp inside with rfl | blank
    · exact free
    · rw [List.mem_singleton.mp blank]
      exact without_literal rfl

private theorem without_stubLines {shapes : List (String × ShapeDef)}
    {operation : ParsedOperation} (names : StubNames lexis shapes operation)
    (method : Without isNul operation.httpMethod)
    (uri : Without isNul operation.httpUri) :
    ∀ piece ∈ stubLines shapes operation, Without isNul piece := by
  intro piece inside
  rw [stubLines_eq, List.mem_cons, List.mem_cons, List.mem_cons, List.mem_singleton]
    at inside
  rcases inside with rfl | rfl | rfl | rfl
  · exact without_httpComment control_nul method uri
  · exact without_stubHeader control_nul names.name names.params names.returns
  · exact without_printable control_nul rfl
  · exact without_literal rfl

private theorem without_pieLines {parsed : ParsedModel} {serviceName outputPath : String}
    (names : ParsedNames lexis parsed)
    (free : ∀ text ∈ commentTexts parsed serviceName outputPath, Without isNul text) :
    ∀ piece ∈ pieLines parsed serviceName outputPath, Without isNul piece := by
  have header := without_pieHeader fun text listed =>
    free text (List.mem_append_left _ listed)
  intro piece inside
  unfold pieLines at inside
  simp only [List.mem_append] at inside
  rcases inside with (((inHeader | inHeading) | inClasses) | inHeading) | inStubs
  · rcases List.mem_cons.mp inHeader with rfl | blank
    · exact header.rstrip
    · rw [List.mem_singleton.mp blank]
      exact without_literal rfl
  · exact without_heading _ (without_printable control_nul rfl) piece inHeading
  · obtain ⟨emitted, listed, inLines⟩ := List.mem_flatMap.mp inClasses
    obtain ⟨item, inClass, rfl⟩ := List.mem_map.mp listed
    exact without_classLines control_nul (names.classes item inClass) piece inLines
  · exact without_heading _ without_stubComment.rstrip piece inHeading
  · obtain ⟨operation, listed, inLines⟩ := List.mem_flatMap.mp inStubs
    have inTexts (text : String)
        (either : text ∈ [operation.httpMethod, operation.httpUri]) :
        text ∈ commentTexts parsed serviceName outputPath :=
      List.mem_append_right _ (List.mem_flatMap.mpr ⟨operation, listed, either⟩)
    exact without_stubLines (names.stubs operation listed)
      (free _ (inTexts _ List.mem_cons_self))
      (free _ (inTexts _ (List.mem_cons_of_mem _ List.mem_cons_self))) piece inLines

private theorem without_nul_iff {text : String} :
    Without isNul text ↔ '\x00' ∉ text.toList := by
  constructor
  · intro free inside
    cases free _ inside
  · intro absent c inside
    rw [isNul, decide_eq_false_iff_not]
    rintro rfl
    exact absent inside

/-- A NUL of a comment text is one of the whole text, and there are no others. -/
theorem nul_generatePie {parsed : ParsedModel} {serviceName outputPath : String}
    (names : ParsedNames lexis parsed) :
    '\x00' ∉ (generatePie parsed serviceName outputPath).toList ↔
      ∀ text ∈ commentTexts parsed serviceName outputPath, '\x00' ∉ text.toList := by
  constructor
  · intro absent text listed inside
    apply absent
    rcases List.mem_append.mp listed with inHeader | inStubs
    · have whole := mem_rstrip (mem_pieHeader inHeader inside) (by decide)
      exact mem_intercalate (List.mem_append_left _ (List.mem_append_left _
        (List.mem_append_left _ (List.mem_append_left _ List.mem_cons_self)))) whole
    · obtain ⟨operation, isOperation, either⟩ := List.mem_flatMap.mp inStubs
      have whole : '\x00' ∈ (httpComment operation).toList := by
        change '\x00' ∈ ("# HTTP " ++ operation.httpMethod ++ " " ++
          operation.httpUri).toList
        simp only [String.toList_append, List.mem_append]
        simp only [List.mem_cons, List.not_mem_nil, or_false] at either
        rcases either with rfl | rfl <;> simp only [inside, true_or, or_true]
      apply mem_intercalate (List.mem_append_right _ _) whole
      exact List.mem_flatMap.mpr ⟨operation, isOperation, List.mem_cons_self⟩
  · intro free
    have pieces : ∀ piece ∈ pieLines parsed serviceName outputPath,
        Without isNul piece :=
      without_pieLines names fun text listed => without_nul_iff.mpr (free text listed)
    exact without_nul_iff.mp (without_intercalate (without_literal rfl) pieces)

end Text

end Lambpie.Scripts
