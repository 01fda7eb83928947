import Storefront.Main
import Storefront.Proofs.Archive.ReadBack
import Storefront.Proofs.Archive.Release
import Storefront.Proofs.Catalog.History
import Storefront.Proofs.Catalog.NewPage
import Storefront.Proofs.Delivery.Stream
import Storefront.Proofs.Theme.Likeness
import Storefront.Proofs.Catalog.Growth
import Storefront.Proofs.Page.Editing
import Storefront.Proofs.Delivery.Account
import Storefront.Proofs.Number.Rounding
import Storefront.Proofs.Number.ReadBack
import Storefront.Proofs.Json.Literal
import Storefront.Proofs.Json.Quoted
import Storefront.Proofs.Json.Reader
import Storefront.Proofs.Json.Nesting
import Storefront.Proofs.Json.Settled
import Storefront.Proofs.Json.ReadBack
import Storefront.Proofs.Json.Canonical
import Storefront.Proofs.Page.Hash
import Storefront.Proofs.Json.Record
import Storefront.Proofs.Page.ReadBack
import Storefront.Proofs.Json.Texts
import Storefront.Proofs.Section.ReadBack
import Storefront.Proofs.Section.Schema
import Storefront.Proofs.Section.Fields
import Storefront.Proofs.Catalog.Template
import Storefront.Proofs.Command.Agreement
import Storefront.Proofs.Command.NewPage
import Storefront.Proofs.Validation.ReadBack
import Storefront.Proofs.Theme.ReadBack
import Storefront.Proofs.Page.Move
import Storefront.Proofs.Section.Registration
import Storefront.Proofs.Catalog.Folder
import Storefront.Proofs.Validation.WholeRanges
import Storefront.Proofs.Page.FirstBlock
import Storefront.Proofs.Archive.HeaderSearch
import Storefront.Proofs.Stock.GridRules
import Storefront.Proofs.Theme.Size
