import ShaderTree.Glsl.Render
import ShaderTree.Listing.Read

namespace ShaderTree

inductive Log.Level
  | debug | trace
deriving DecidableEq, Repr

structure Log.Record where
  level : Log.Level
  text : String
deriving DecidableEq, Repr

namespace Log

def Level.name : Level → String
  | debug => "debug"
  | trace => "trace"

def counted (n : Nat) (things : String) : String := toString n ++ " " ++ things

def parsedProgram (p : Program) : Record where
  level := .trace
  text := "parsed program: " ++ counted p.uniforms.length "uniforms, " ++
    counted p.attributes.length "attributes, " ++ counted p.varyings.length "varyings, " ++
    counted p.funcs.length "funcs"

def parsedFunc (f : Func) : Record := ⟨.trace, "parsed func @" ++ f.name⟩

def rendering (p : Program) : Record where
  level := .debug
  text := "rendering GLSL: " ++ counted (Glsl.StructTable.ofProgram p).length "structs, " ++
    counted p.uniforms.length "uniforms, " ++ counted p.attributes.length "attributes, " ++
    counted p.varyings.length "varyings, " ++ counted p.funcs.length "funcs"

def renderingFunc (f : Func) : Record where
  level := .trace
  text := "rendering func " ++ f.name ++ ": " ++ counted f.paramCount "params, " ++
    counted f.localCount "locals"

/-- Each function is recorded when it is begun, and the first one that is refused is the last. -/
def renderingFuncs (p : Program) (table : Glsl.StructTable) : List Func → List Record
  | [] => []
  | f :: fs =>
    renderingFunc f ::
      match Glsl.renderFunc p table f with
      | .ok _ => renderingFuncs p table fs
      | .error _ => []

def ofRender (p : Program) : List Record :=
  let table := Glsl.StructTable.ofProgram p
  rendering p ::
    match Glsl.renderHead p table with
    | .ok _ => renderingFuncs p table p.funcs
    | .error _ => []

def ofParseFunc (text : String) : List Record :=
  match Func.parse text with
  | .ok f => [parsedFunc f]
  | .error _ => []

def ofCompile (text : String) : List Record :=
  match Program.parse text with
  | .ok p => parsedProgram p :: ofRender p
  | .error _ => []

end Log

end ShaderTree
