import Mathlib.Data.List.Basic

/-!
The maps from descriptors that `TcpServer::connections_` and
`ConnectionTimeoutManager::connections_` keep, as lists of pairs in insertion order: `find`
and `erase` by descriptor.
-/

set_option autoImplicit false
set_option relaxedAutoImplicit false

namespace ReactorServer.FdMap

def lookup (l : List (Int × Nat)) (fd : Int) : Option Nat :=
  (l.find? fun p => p.1 == fd).map Prod.snd

def eraseKey (l : List (Int × Nat)) (fd : Int) : List (Int × Nat) := l.filter fun p => p.1 != fd

theorem lookup_eraseKey (l : List (Int × Nat)) (fd' fd : Int) :
    lookup (eraseKey l fd') fd = if fd = fd' then none else lookup l fd := by
  induction l with
  | nil => simp [lookup, eraseKey]
  | cons p l ih =>
    simp only [lookup, eraseKey] at ih ⊢
    by_cases h1 : p.1 = fd' <;> by_cases h2 : p.1 = fd <;>
      simp_all [List.filter_cons, List.find?_cons]

theorem lookup_append_pair (l : List (Int × Nat)) (fd' : Int) (c' : Nat) (fd : Int) :
    lookup (l ++ [(fd', c')]) fd = (lookup l fd).or (if fd' = fd then some c' else none) := by
  unfold lookup
  rw [List.find?_append]
  cases l.find? (fun p => p.1 == fd) <;> by_cases h : fd' = fd <;> simp [h]

end ReactorServer.FdMap
