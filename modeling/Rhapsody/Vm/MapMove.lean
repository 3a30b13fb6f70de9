import Rhapsody.Vm.MapAddress

/-! What a failed `vm_map_copy` and a failed `vm_move` leave mapped. -/

namespace Rhapsody.Vm
open Rhapsody.Lib List Option

variable {ο σ : Type}

def vmPageSize : ℕ := 8192

def truncPage (x : ℕ) : ℕ := x / vmPageSize * vmPageSize

def roundPage (x : ℕ) : ℕ := truncPage (add32 x (vmPageSize - 1))

namespace VmSystem

variable [DecidableEq ο] (w : VmLayers ο σ) (mem : VmMapEntry ο)

end VmSystem

def mappingOf (e : VmMapEntry ο) (x : ℕ) : Option ο × ℕ × VmProt × VmInherit :=
  (e.object, add32 e.offset (sub32 x e.vmeStart), e.protection, e.inheritance)

def VmSystem.mappingAt (sys : VmSystem ο σ) (m x : ℕ) :
    Option (Option ο × ℕ × VmProt × VmInherit) :=
  sys.maps[m]?.bind fun map => valueAt mappingOf map.entries x

/-! ## Operations on one map -/

variable {x size a : ℕ} {prot : VmProt} {ok : Bool} {kr : KernReturn}

variable {mem : VmMapEntry ο} {start : ℕ}

section
variable {w : VmLayers ο σ} {map map' : VmMap ο} {s s' : σ} {stop : ℕ}

variable {c : Cut ο}

variable {k : ℕ} {es : List (VmMapEntry ο)}

variable [DecidableEq ο]

end

namespace VmSystem

variable {w : VmLayers ο σ} {sys sys' : VmSystem ο σ} {m : ℕ}

def SameMappings (sys sys' : VmSystem ο σ) : Prop := ∀ n x, sys'.mappingAt n x = sys.mappingAt n x

variable {α : Type} {f : VmMap ο → σ → Option (α × VmMap ο × σ)}

variable {stop : ℕ}

lemma SameMappings.trans {sys'' : VmSystem ο σ} (h : SameMappings sys sys')
    (h' : SameMappings sys' sys'') : SameMappings sys sys'' := fun n x => (h' n x).trans (h n x)

variable {src dst srcAddr srcEnd dstAddr : ℕ} {dstAlloc : Bool}

variable [DecidableEq ο]

variable {srcDestroy : Bool}

end VmSystem

end Rhapsody.Vm
