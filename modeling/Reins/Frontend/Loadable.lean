import Reins.Lib.Schema

/-!
# Data that is fetched (`frontend/src/helpers/loadable.ts`)
-/

namespace Reins

inductive LoadableStatus
  | idle
  | loading
  | loaded
  | error
  deriving DecidableEq

structure Loadable (α : Type) where
  status : LoadableStatus
  data : Option α
  loading : Bool
  error : Option Schema.JsString

namespace Loadable

variable {α : Type}

def idle : Loadable α := ⟨.idle, none, false, none⟩

def asLoading (l : Loadable α) : Loadable α := ⟨.loading, l.data, true, none⟩

def asLoaded (data : α) : Loadable α := ⟨.loaded, some data, false, none⟩

def asError (l : Loadable α) (error : Schema.JsString) : Loadable α := ⟨.error, l.data, false, some error⟩

end Loadable

end Reins
