/-
What a script does on a host, step by step.

A script that goes on with another one runs as the first, then as the
second from the files that the first has left (`runOn_bind`). An action
stops at its first error (`Action.runOn_ok`, `Action.runOn_error`), so
that a run of a long action is told by its steps.

# Looking without touching

Most steps of a command only look: they read files or ask for workers, and
their result depends on the host and its files alone. `Sees host files x r`
says that an action does nothing there but to come to a result, whatever
has been printed before. On every host such an action leaves the files as
they are, since nothing but reading is asked of it.
-/
import AdditiveDetail.CommandLine.Run

namespace AdditiveDetail

namespace CommandLine

variable {σ α β : Type} {host : Host σ} {files : σ} {stdout : String}

namespace Script

/-- The files of a host, and what has been printed, behind a script. -/
theorem runOn_bind (s : Script α) (f : α → Script β) (host : Host σ)
    (files : σ) (stdout : String) :
    (s >>= f).runOn host files stdout
      = (f (s.runOn host files stdout).result).runOn host
          (s.runOn host files stdout).files
          (s.runOn host files stdout).stdout := by
  change (bind f s).runOn host files stdout = _
  induction s generalizing files stdout with
  | done a => rfl
  | print text next ih => exact ih files _
  | read path next ih => exact ih _ files _
  | create path next ih => exact ih _ _ _
  | append path text next ih => exact ih _ _ _
  | flush path next ih => exact ih _ _ _
  | startWorkers count next ih => exact ih _ files _

end Script

namespace Action

variable {x : Action α} {f : α → Action β} {files' : σ} {out : String}

/-- An action that comes to a value goes on with it. -/
theorem runOn_ok {a : α}
    (hx : x.run.runOn host files stdout
      = { result := .ok a, stdout := out, files := files' }) :
    (x >>= f).run.runOn host files stdout
      = (f a).run.runOn host files' out := by
  rw [ExceptT.run_bind, Script.runOn_bind, hx]

/-- An action that comes to an error stops there. -/
theorem runOn_error {e : RunError}
    (hx : x.run.runOn host files stdout
      = { result := .error e, stdout := out, files := files' }) :
    (x >>= f).run.runOn host files stdout
      = { result := .error e, stdout := out, files := files' } := by
  rw [ExceptT.run_bind, Script.runOn_bind, hx]
  rfl

/-- What a script comes to is what it comes to as an action. -/
theorem runOn_lift (s : Script α) :
    (lift s).run.runOn host files stdout
      = { result := .ok (s.runOn host files stdout).result
          stdout := (s.runOn host files stdout).stdout
          files := (s.runOn host files stdout).files } := by
  show (s >>= fun a => Script.done (Except.ok a)).runOn host files stdout = _
  rw [Script.runOn_bind]
  rfl

-- ==================================================================== looking

/-- What an action that only looks comes to. -/
def Sees (host : Host σ) (files : σ) (x : Action α)
    (r : Except RunError α) : Prop :=
  ∀ stdout, x.run.runOn host files stdout = { result := r, stdout, files }

/-- An action behind one that only looks goes on with what was seen. -/
theorem Sees.runOn_bind {r : Except RunError α} (f : α → Action β)
    (stdout : String) :
    Sees host files x r → (x >>= f).run.runOn host files stdout =
      match r with
      | .ok a => (f a).run.runOn host files stdout
      | .error e => { result := .error e, stdout, files } := by
  intro hx
  cases r with
  | ok a => exact Action.runOn_ok (hx stdout)
  | error e => exact Action.runOn_error (hx stdout)

/-- Looking twice is looking. -/
theorem Sees.bind {r : Except RunError α} {g : α → Except RunError β}
    (hx : Sees host files x r)
    (hf : ∀ a, r = .ok a → Sees host files (f a) (g a)) :
    Sees host files (x >>= f) (r >>= g) := by
  intro stdout
  rw [hx.runOn_bind]
  cases r with
  | error e => rfl
  | ok a => exact hf a rfl stdout

/-- Behind a look that succeeds, what is seen is what is seen next. -/
theorem Sees.step {a : α} {r : Except RunError β}
    (hx : Sees host files x (.ok a)) (hf : Sees host files (f a) r) :
    Sees host files (x >>= f) r :=
  fun stdout => (hx.runOn_bind f stdout).trans (hf stdout)

theorem sees_pure (a : α) : Sees host files (pure a) (.ok a) := fun _ => rfl

theorem sees_throw (e : RunError) :
    Sees host files (throw e : Action α) (.error e) :=
  fun _ => rfl

theorem sees_ofExcept {ε : Type} (wrap : ε → RunError) (r : Except ε α) :
    Sees host files (ofExcept wrap r) (r.mapError wrap) := by
  cases r with
  | error e => exact sees_throw _
  | ok a => exact sees_pure a

theorem sees_read (path : String) :
    Sees host files (Action.read path) (.ok (host.read files path)) :=
  fun _ => runOn_lift _

theorem sees_startWorkers (count : Nat) :
    Sees host files (startWorkers count) (.ok (host.workers count)) :=
  fun _ => runOn_lift _

-- =================================================================== changing

theorem runOn_print (text : String) :
    (print text).run.runOn host files stdout
      = { result := .ok (), stdout := stdout ++ text, files } :=
  runOn_lift _

theorem runOn_create (path : String) :
    (create path).run.runOn host files stdout
      = { result := .ok (host.create files path).1, stdout
          files := (host.create files path).2 } :=
  runOn_lift _

theorem runOn_append (path text : String) :
    (append path text).run.runOn host files stdout
      = { result := .ok (host.append files path text).1, stdout
          files := (host.append files path text).2 } :=
  runOn_lift _

theorem runOn_flush (path : String) :
    (flush path).run.runOn host files stdout
      = { result := .ok (host.flush files path).1, stdout
          files := (host.flush files path).2 } :=
  runOn_lift _

end Action

end CommandLine

end AdditiveDetail
