import FlowTree.Analysis

/-!
Documents: the text of a file as an editor has it, analysed as far as it goes.
-/

namespace FlowTree.Editor

/-- The analysis of a document. -/
structure Document where
  uri : String
  /-- The program of the text, if it is one. -/
  program? : Option Assembly.Program := none
  analyses : List Analysis := []
  diagnostics : List Diagnostic := []

/-- Analyse the text of a document whose file is at `path`. -/
def Document.analyze (uri : String) (path source : Text) : Document :=
  let file := path.shown
  match Assembly.Program.parse source with
  | .error e => { uri, diagnostics := [e.diagnostic file] }
  | .ok program =>
    let (m, diagnostics) := Module.lower file program
    let analyses := Analysis.all m
    ⟨uri, some program, analyses, diagnostics ++ diagnosticsOf analyses⟩

end FlowTree.Editor
