import PromptScript.Chain.Basic

/-! # Playing a chain

A chain is played with texts that answer its steps in turn; the last one answers all further steps. -/
namespace PromptScript.Chain

variable {σ : Type}

/-- The text that answers the step of a number. -/
def scripted (answers : List String) (number : Nat) : String :=
  (answers[number]?.or answers.getLast?).getD ""

/-- Makes steps until the chain is completed, or a step fails, or as many steps as `limit` says have been made.
Gives what the steps give, and why the last one failed. The number of the next step is given: step 0 needs no
answer. -/
def playFrom (eval : Evaluator σ) (answers : List String) :
    (limit number : Nat) → Chain → World σ → List StepResult × Option ChainFault
  | 0, _, _, _ => ([], none)
  | limit + 1, number, chain, world =>
    let response := if number = 0 then none else some (Response.text (scripted answers (number - 1)))
    match chain.step eval response world with
    | (.error fault, _) => ([], some fault)
    | (.ok (chain, result), world) =>
      if result.completed then ([result], none)
      else
        let (results, fault) := playFrom eval answers limit (number + 1) chain world
        (result :: results, fault)

/-- No chain that is played makes more steps. -/
def playLimit : Nat := Nat.pow 2 32

/-- Plays a chain from its start. -/
def play (eval : Evaluator σ) (answers : List String) (chain : Chain) (world : World σ) :
    List StepResult × Option ChainFault :=
  playFrom eval answers playLimit 0 chain world

end PromptScript.Chain
