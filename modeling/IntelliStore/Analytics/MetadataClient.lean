import IntelliStore.Analytics.Recommendations
import IntelliStore.Storage.HttpClient

/-! `HttpMetadataClient` of ai-analytics-service: the listing that the recommendations are made
from, as bytes. The times of creation come back from their texts. -/

noncomputable section

namespace IntelliStore

def Metadata.FileRouter.answerListFiles (ownerId : Postgres.Uuid) (d : Metadata.Database) :
    HttpReply :=
  Metadata.FileRouter.reply 200 Metadata.FileWithLatestVersion.codec.list
    (.ok (Metadata.FileService.listFiles d ownerId))

namespace Analytics
open Library Postgres Metadata Storage
open Storage.HttpMetadataClient (fetchJson fetchJson_eq readReply_reply request)

def HttpMetadataClient.listFiles (outcome : CallOutcome) (bearerToken : BearerToken)
    (d : Database) : Except Failure (List FileWithLatestVersion) :=
  (fetchJson outcome FileWithLatestVersion.codec.list
    (fun d => (FileRouter.answerListFiles bearerToken d, d)) d).1

theorem HttpMetadataClient.listFiles_eq (outcome : CallOutcome) (bearerToken : BearerToken)
    (d : Database) : HttpMetadataClient.listFiles outcome bearerToken d =
      (request outcome (fun d => (.ok (FileService.listFiles d bearerToken), d)) d).1 :=
  congrArg Prod.fst (fetchJson_eq (fun _ => ⟨readReply_reply _ _ _, rfl⟩) d)

/-- `getFileRecommendations` with its call of metadata-service. -/
def AnalyticsService.getFileRecommendations (options : ScoringOptions) (clock : Uuid → ℤ)
    (rank : FileAccessStats → Nat) (outcome : CallOutcome) (bearerToken : BearerToken)
    (d : Database) (s : AccessStats) : Except Failure (List FileRecommendation) :=
  (HttpMetadataClient.listFiles outcome bearerToken d).map fun files =>
    Analytics.getFileRecommendations options clock rank files s

/-- A call that is answered gives the recommendations for the files in the tables, and any other
call an error. -/
theorem AnalyticsService.getFileRecommendations_eq (options : ScoringOptions) (clock : Uuid → ℤ)
    (rank : FileAccessStats → Nat) (outcome : CallOutcome) (bearerToken : BearerToken)
    (d : Database) (s : AccessStats) :
    (outcome = .replied → AnalyticsService.getFileRecommendations options clock rank outcome
      bearerToken d s = .ok (Analytics.getFileRecommendations options clock rank
        (FileService.listFiles d bearerToken) s)) ∧
    (outcome ≠ .replied → ∃ e, AnalyticsService.getFileRecommendations options clock rank outcome
      bearerToken d s = .error e) := by
  rw [AnalyticsService.getFileRecommendations, HttpMetadataClient.listFiles_eq]
  constructor
  · intro houtcome
    rw [houtcome]
    rfl
  · intro houtcome
    cases outcome with
    | replied => exact absurd rfl houtcome
    | _ => exact ⟨_, rfl⟩

end Analytics
end IntelliStore

end
