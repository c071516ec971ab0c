/-
# Theory.Consultation — code that consults a library

A `Consulting` program ends with a result, or puts a question to a library it is
given and goes on with the answer.  It is read in two ways: `result` is what it comes
to, `asked` the questions it puts on the way.  Both are readings of one program, so a
statement about what was asked is a statement about the code that gives the result.
-/

namespace SecureMsg.Theory

set_option autoImplicit false

universe u v w

inductive Consulting (Question : Type u) (Answer : Type v) (α : Type w) where
  | done (result : α)
  | ask (question : Question) (resume : Answer → Consulting Question Answer α)

namespace Consulting

variable {Question : Type u} {Answer : Type v} {α : Type w} (library : Question → Answer)

def result : Consulting Question Answer α → α
  | .done value => value
  | .ask question resume => (resume (library question)).result

def asked : Consulting Question Answer α → List Question
  | .done _ => []
  | .ask question resume => question :: (resume (library question)).asked

@[simp] theorem result_done (value : α) :
    (done value : Consulting Question Answer α).result library = value := rfl

@[simp] theorem result_ask (question : Question) (resume : Answer → Consulting Question Answer α) :
    (ask question resume).result library = (resume (library question)).result library := rfl

@[simp] theorem asked_done (value : α) :
    (done value : Consulting Question Answer α).asked library = [] := rfl

@[simp] theorem asked_ask (question : Question) (resume : Answer → Consulting Question Answer α) :
    (ask question resume).asked library = question :: (resume (library question)).asked library := rfl

end Consulting

end SecureMsg.Theory
