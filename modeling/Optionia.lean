import Optionia.Rules.Order
import Optionia.Config.CrashRecovery
import Optionia.Wire.OptionAgreement
import Optionia.Billing.Linking
import Optionia.Billing.FirstPurchase
import Optionia.Billing.OneRunner
import Optionia.Publishing.Drafts
import Optionia.Delivery.NotModified
import Optionia.Page.Mismatch
import Optionia.Catalogue.Reconcile
import Optionia.Usage.Allowance
import Optionia.Catalogue.Delivered
import Optionia.Catalogue.Coverage
import Optionia.Authoring.Cascade
import Optionia.Design.Saving
import Optionia.Sets.Duplicates
import Optionia.Auth.Replay
import Optionia.Auth.SingleUse
import Optionia.Render.Worker
import Optionia.Render.Requester
import Optionia.Render.Reached
import Optionia.Connection.Agreement
import Optionia.Stores.Standing
import Optionia.Stores.Codes
import Optionia.Stores.PushUrls
import Optionia.Reporting.CompleteRecord
import Optionia.Usage.Storage
import Optionia.Design.Letterboxed
import Optionia.Tenancy.Isolation
import Optionia.Analytics.OthersData
import Optionia.Uploads.Artwork
import Optionia.Cloud.Cycles
import Optionia.Engine.CleanedOnce
import Optionia.Pagination.Pages
import Optionia.Config.UnpricedTypes
import Optionia.Cart.Totals
import Optionia.Wire.Brackets
import Optionia.Sets.Minimums
import Optionia.Editor.Amounts
import Optionia.Editor.Entries
import Optionia.Editor.History
import Optionia.Editor.PublishDiff
import Optionia.Design.TextGeometry
import Optionia.Design.Resizing
import Optionia.Design.LayerImages
import Optionia.Support.ZonedAddress
import Optionia.Tenants.Invitations
import Optionia.Usage.Upgrade
import Optionia.Analytics.Export
import Optionia.Analytics.Products
import Optionia.Analytics.Conversion
import Optionia.Views.Beacons
import Optionia.Reporting.Reporter
import Optionia.Authoring.Defaults
import Optionia.Analytics.Summary
