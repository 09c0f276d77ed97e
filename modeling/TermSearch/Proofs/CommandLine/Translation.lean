import TermSearch.Proofs.CommandLine.Request
import TermSearch.Proofs.Document.Depth

namespace TermSearch

/-! A request for a translation prints one document in full, or nothing at all.
It prints the document last, after everything that may fail. -/

namespace CommandLine

open Transcript

namespace TranslateRequest

variable {request : TranslateRequest} {surroundings : Surroundings}

theorem isSilentOnFailure_run (request : TranslateRequest)
    (surroundings : Surroundings) :
    (request.run surroundings).IsSilentOnFailure :=
  (isSilent_config surroundings).bind_silentOnFailure fun config =>
    (isSilent_request surroundings config request.query).bind_silentOnFailure
      fun found =>
      (request.isSilent_build found.2 found.1).bind_silentOnFailure fun _ =>
        (isSilent_document _).bind_silentOnFailure fun _ => nofun

end TranslateRequest

variable {arguments : List String} {surroundings : Surroundings}
  {verbosity : Nat} {request : TranslateRequest}

end CommandLine

end TermSearch
