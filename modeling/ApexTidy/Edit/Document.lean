import ApexTidy.Edit.Basic

/-!
A document takes a batch of edits as one transaction: it is fully transformed or left as it was.
-/

namespace ApexTidy

structure Document where
  text : Text
deriving DecidableEq, Repr

namespace Document

structure Reply (α : Type) where
  result : Except Fault α
  document : Document

def apply (d : Document) (batch : List Edit) : Reply Unit :=
  match d.text.applyEdits batch with
  | .ok text => ⟨.ok (), ⟨text⟩⟩
  | .error fault => ⟨.error fault, d⟩

end Document

end ApexTidy
