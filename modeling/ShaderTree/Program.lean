import ShaderTree.Func

namespace ShaderTree

structure Program where
  uniforms : List Ty := []
  attributes : List Ty := []
  varyings : List Ty := []
  funcs : List Func := []

namespace Program

def isEmpty (p : Program) : Bool :=
  p.uniforms.isEmpty && p.attributes.isEmpty && p.varyings.isEmpty && p.funcs.isEmpty

def func? (p : Program) (name : String) : Option Func := p.funcs.find? (·.name == name)

/-- The number of variables of the category, the locals being counted by the caller. -/
def available (p : Program) (locals : Nat) : Category → Nat
  | .uniform => p.uniforms.length
  | .attribute => p.attributes.length
  | .varying => p.varyings.length
  | .local => locals

/-- Each declaration is added at the end, and comes with its index. -/
def addUniform (p : Program) (t : Ty) : Nat × Program :=
  (p.uniforms.length, { p with uniforms := p.uniforms ++ [t] })

def addAttribute (p : Program) (t : Ty) : Nat × Program :=
  (p.attributes.length, { p with attributes := p.attributes ++ [t] })

def addVarying (p : Program) (t : Ty) : Nat × Program :=
  (p.varyings.length, { p with varyings := p.varyings ++ [t] })

def addFunc (p : Program) (f : Func) : Nat × Program :=
  (p.funcs.length, { p with funcs := p.funcs ++ [f] })

def equal (p q : Program) : Bool :=
  p.uniforms == q.uniforms && p.attributes == q.attributes && p.varyings == q.varyings &&
    p.funcs.length == q.funcs.length && (p.funcs.zip q.funcs).all fun (f, g) => f.equal g

end Program

end ShaderTree
