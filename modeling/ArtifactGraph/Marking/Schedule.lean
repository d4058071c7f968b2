import ArtifactGraph.Graph.Registry

set_option autoImplicit false

namespace ArtifactGraph

structure Schedule where
  batch : Nat → List Node → List Node × List Node
  perm : ∀ round pending, ((batch round pending).1 ++ (batch round pending).2).Perm pending
  progress : ∀ round pending, pending ≠ [] → (batch round pending).1 ≠ []

namespace Schedule

def worklist : Schedule where
  batch _ pending := (pending.take 1, pending.drop 1)
  perm _ pending := by rw [List.take_append_drop]
  progress _ pending waiting := by cases pending <;> simp_all

def frontier (order : Nat → List Node → List Node)
    (complete : ∀ round pending, (order round pending).Perm pending) : Schedule where
  batch round pending := (order round pending, [])
  perm round pending := by simpa using complete round pending
  progress round pending waiting := by
    intro idle
    have same : ([] : List Node).Perm pending := idle ▸ complete round pending
    exact waiting same.symm.eq_nil

def rounds : Schedule := frontier (fun _ pending => pending) fun _ pending => .refl pending

end Schedule

-- No threads at all asks for as many as there are processors.
structure Settings where
  threads : Nat := 0
  parallel : Bool := true
  record : Bool := false
deriving DecidableEq

namespace Settings

def sequential : Settings := { threads := 1, parallel := false }

def onThreads (threads : Nat) : Settings := { threads }

def recording (settings : Settings) : Settings := { settings with record := true }

def workers (settings : Settings) (processors : Nat) : Nat :=
  if !settings.parallel then 1 else if settings.threads = 0 then processors else settings.threads

def schedule (settings : Settings) (processors : Nat) : Schedule :=
  if settings.parallel && settings.workers processors > 1 then .rounds else .worklist

end Settings

end ArtifactGraph
