namespace ShaderTree

inductive BasicTy
  | bool | int | float
  | vec2 | vec3 | vec4
  | mat2 | mat3 | mat4
deriving DecidableEq, Repr

namespace BasicTy

def all : List BasicTy := [bool, int, float, vec2, vec3, vec4, mat2, mat3, mat4]

theorem mem_all (b : BasicTy) : b ∈ all := by cases b <;> decide

/-- The name of the type, the same in listings and in GLSL. -/
def token : BasicTy → String
  | bool => "bool"
  | int => "int"
  | float => "float"
  | vec2 => "vec2"
  | vec3 => "vec3"
  | vec4 => "vec4"
  | mat2 => "mat2"
  | mat3 => "mat3"
  | mat4 => "mat4"

end BasicTy

/-- Structs have no names of their own: two of them are the same type when their members are. -/
inductive Ty
  | basic (b : BasicTy)
  | struct (members : List Ty)
deriving Repr

namespace Ty

mutual

def beq : Ty → Ty → Bool
  | basic a, basic b => a == b
  | struct as, struct bs => beqList as bs
  | _, _ => false

def beqList : List Ty → List Ty → Bool
  | [], [] => true
  | a :: as, b :: bs => beq a b && beqList as bs
  | _, _ => false

end

mutual

theorem beq_iff (a b : Ty) : beq a b = true ↔ a = b := by
  cases a <;> cases b <;> simp [beq, beqList_iff]

theorem beqList_iff (as bs : List Ty) : beqList as bs = true ↔ as = bs := by
  cases as with
  | nil => cases bs <;> simp [beqList]
  | cons a as =>
    cases bs with
    | nil => simp [beqList]
    | cons b bs => simp [beqList, beq_iff a b, beqList_iff as bs]

end

instance : DecidableEq Ty := fun a b => decidable_of_iff _ (beq_iff a b)

def token? : Ty → Option String
  | basic b => some b.token
  | struct _ => none

def isStruct : Ty → Bool
  | basic _ => false
  | struct _ => true

def members : Ty → List Ty
  | basic _ => []
  | struct ts => ts

end Ty

end ShaderTree
