import Storefront.Liquid
import Storefront.Section.Basic
/-! The markup of the stock sections. It reads every value of an instance through its settings. -/

namespace Storefront.Stock
open Liquid

def headerMarkup : String := lines [
    "<header class=\"header-" ++ instanceId ++ " header--" ++ value "variant" ++ tag ("if " ++
      setting "sticky") ++ " sticky" ++ tag "endif" ++ "\">",
    "  <div class=\"header-container\">",
    "    <a href=\"/\" class=\"logo\">" ++ value "logo_text" ++ "</a>",
    "    <nav>",
    "      <ul>",
    "        <li><a href=\"/\">Home</a></li>",
    "        <li><a href=\"/collections/all\">Catalog</a></li>",
    "      </ul>",
    "    </nav>",
    "  </div>",
    "</header>",
    "<style>",
    "  .header-" ++ instanceId ++ opened,
    "    background: " ++ value "bg_color" ++ ";",
    "    color: " ++ value "text_color" ++ ";",
    "    padding: 20px;",
    closed,
    "  .header-" ++ instanceId ++ " a " ++ styles "color: inherit; text-decoration: none;",
    "  .header-" ++ instanceId ++ " ul " ++
      styles "display: flex; gap: 24px; list-style: none; margin: 0; padding: 0;",
    trimTag ("if " ++ setting "variant" ++ " == 'style-b'"),
    "  .header-" ++ instanceId ++ " .header-container " ++
      styles "display: flex; flex-direction: column; align-items: center; gap: 12px;",
    trimTag "else",
    "  .header-" ++ instanceId ++ " .header-container " ++
      styles "display: flex; justify-content: space-between; align-items: center;",
    trimTag "endif",
    "  .header-" ++ instanceId ++ ".sticky" ++ opened,
    "    position: sticky;",
    "    top: 0;",
    "    z-index: 100;",
    closed,
    "</style>"]

def heroMarkup : String := lines [
    "<section class=\"hero-" ++ instanceId ++ " hero--" ++ value "variant" ++ "\">",
    trimTag ("if " ++ setting "variant" ++ " == 'style-b'"),
    "  <div class=\"hero-split\">",
    "    <div class=\"hero-content\">",
    "      <h1>" ++ value "heading" ++ "</h1>",
    "      <p>" ++ value "subheading" ++ "</p>",
    "      <a href=\"/collections/all\" class=\"button\">" ++ value "button_text" ++ "</a>",
    "    </div>",
    "    <div class=\"hero-media\" aria-hidden=\"true\"></div>",
    "  </div>",
    trimTag "else",
    "  <div class=\"hero-content\">",
    "    <h1>" ++ value "heading" ++ "</h1>",
    "    <p>" ++ value "subheading" ++ "</p>",
    "    <a href=\"/collections/all\" class=\"button\">" ++ value "button_text" ++ "</a>",
    "  </div>",
    trimTag "endif",
    "</section>",
    "<style>",
    "  .hero-" ++ instanceId ++ opened,
    "    background: " ++ value "bg_color" ++ ";",
    "    color: " ++ value "text_color" ++ ";",
    "    padding-top: " ++ value "padding_top" ++ "px;",
    "    padding-bottom: " ++ value "padding_bottom" ++ "px;",
    "    text-align: center;",
    closed,
    "  .hero-" ++ instanceId ++ " .button" ++ opened,
    "    display: inline-block;",
    "    padding: 12px 28px;",
    "    border: 1px solid currentColor;",
    "    color: inherit;",
    "    text-decoration: none;",
    closed,
    "  .hero-" ++ instanceId ++ " .hero-split" ++ opened,
    "    display: grid;",
    "    grid-template-columns: 1fr 1fr;",
    "    gap: 40px;",
    "    align-items: center;",
    "    text-align: left;",
    "    padding: 0 40px;",
    closed,
    "  .hero-" ++ instanceId ++ " .hero-media " ++
      styles "background: rgba(0, 0, 0, 0.08); aspect-ratio: 4/3;",
    "</style>"]

def bannerMarkup : String := lines [
    "<section class=\"banner-" ++ instanceId ++ " banner--" ++ value "variant" ++ "\">",
    "  <div class=\"banner-image\">",
    "    " ++ trimTag ("if " ++ setting "image_url" ++ " != blank"),
    "    <img src=\"" ++ value "image_url" ++ "\" alt=\"" ++ output (setting "heading" ++
      " | escape") ++ "\">",
    "    " ++ trimTag "endif",
    "    " ++ trimTag ("if " ++ setting "variant" ++ " == 'style-b'"),
    "  </div>",
    "  <div class=\"banner-caption\">",
    "    <h2>" ++ value "heading" ++ "</h2>",
    "  </div>",
    "    " ++ trimTag "else",
    "    <div class=\"banner-overlay\" style=\"background: rgba(0, 0, 0, " ++
      output (setting "overlay_opacity" ++ " | divided_by: 100.0") ++ ")\">",
    "      <h2>" ++ value "heading" ++ "</h2>",
    "    </div>",
    "  </div>",
    "    " ++ trimTag "endif",
    "</section>",
    "<style>",
    "  .banner-" ++ instanceId ++ " " ++ styles "position: relative;",
    "  .banner-" ++ instanceId ++ " .banner-image " ++ styles "position: relative;",
    "  .banner-" ++ instanceId ++ " .banner-image img " ++
      styles "width: 100%; height: auto; display: block;",
    "  .banner-" ++ instanceId ++ " .banner-overlay" ++ opened,
    "    position: absolute;",
    "    inset: 0;",
    "    display: flex;",
    "    align-items: center;",
    "    justify-content: center;",
    "    color: #ffffff;",
    closed,
    "  .banner-" ++ instanceId ++ " .banner-caption " ++
      styles "padding: 24px 20px; text-align: center;",
    "</style>"]

/-- The number of columns that an option stands for: digits, maybe after a plus, up to 2^32 - 1. -/
def columnCount? (option : String) : Option Nat :=
  let ds := match option.toList with
    | '+' :: ds => ds
    | ds => ds
  if ds ≠ [] ∧ ds.all Char.isDigit then
    let n := ds.foldl (fun n d => 10 * n + (d.toNat - 48)) 0
    if n < 0x100000000 then some n else none
  else none

def columnRule (n : Nat) : String :=
  "  .product-grid-" ++ instanceId ++ " .grid-" ++ toString n ++ " " ++
    styles ("grid-template-columns: repeat(" ++ toString n ++ ", 1fr);") ++ "\n"

/-- A rule for every option of the setting `columns` that is a number. -/
def columnRules (s : Section) : String :=
  match (s.setting? "columns").map Setting.kind with
  | some (.select options) => String.join ((options.filterMap (columnCount? ·.value)).map columnRule)
  | _ => ""

def gridStart : String := lines [
    "<section class=\"product-grid-" ++ instanceId ++ " product-grid--" ++ value "variant" ++ "\">",
    "  <h2>" ++ value "title" ++ "</h2>",
    trimTag ("if " ++ setting "variant" ++ " == 'style-b'"),
    "  <div class=\"slider\" role=\"list\">",
    "    " ++ trimTag ("for i in (1.." ++ setting "products_to_show" ++ ")"),
    "    <div class=\"product-card\" role=\"listitem\">",
    "      <div class=\"product-image\"></div>",
    "      <h3>Product Title " ++ output "i" ++ "</h3>",
    "      <p>$49.00</p>",
    "    </div>",
    "    " ++ trimTag "endfor",
    "  </div>",
    trimTag "else",
    "  <div class=\"grid grid-" ++ value "columns" ++ "\">",
    "    " ++ trimTag ("for i in (1.." ++ setting "products_to_show" ++ ")"),
    "    <div class=\"product-card\">",
    "      <div class=\"product-image\"></div>",
    "      <h3>Product Title " ++ output "i" ++ "</h3>",
    "      <p>$49.00</p>",
    "    </div>",
    "    " ++ trimTag "endfor",
    "  </div>",
    trimTag "endif",
    "</section>",
    "<style>",
    "  .product-grid-" ++ instanceId ++ " " ++ styles "padding: 40px 20px; text-align: center;",
    "  .product-grid-" ++ instanceId ++ " .grid " ++ styles "display: grid; gap: 20px;"]

def gridEnd : String := lines [
    "  .product-grid-" ++ instanceId ++ " .slider" ++ opened,
    "    display: grid;",
    "    grid-auto-flow: column;",
    "    grid-auto-columns: calc((100% - 60px) / " ++ value "columns" ++ ");",
    "    gap: 20px;",
    "    overflow-x: auto;",
    "    scroll-snap-type: x mandatory;",
    closed,
    "  .product-grid-" ++ instanceId ++ " .slider .product-card " ++
      styles "scroll-snap-align: start;",
    "  .product-grid-" ++ instanceId ++ " .product-image " ++
      styles "background: #eeeeee; aspect-ratio: 3/4;",
    "</style>"]

def gridMarkup (s : Section) : String := gridStart ++ columnRules s ++ gridEnd

def footerMarkup : String := lines [
    "<footer class=\"footer-" ++ instanceId ++ " footer--" ++ value "variant" ++ "\">",
    "  <div class=\"footer-container\">",
    trimTag ("if " ++ setting "variant" ++ " == 'style-b'"),
    "    <div class=\"footer-columns\">",
    "      <div>",
    "        <h4>Shop</h4>",
    "        <ul>",
    "          <li><a href=\"/collections/all\">All products</a></li>",
    "          <li><a href=\"/search\">Search</a></li>",
    "        </ul>",
    "      </div>",
    "      <div>",
    "        <h4>Company</h4>",
    "        <ul>",
    "          <li><a href=\"/pages/about\">About</a></li>",
    "          <li><a href=\"/pages/contact\">Contact</a></li>",
    "        </ul>",
    "      </div>",
    "      <div>",
    "        <h4>Support</h4>",
    "        <ul>",
    "          <li><a href=\"/policies/shipping-policy\">Shipping</a></li>",
    "          <li><a href=\"/policies/refund-policy\">Returns</a></li>",
    "        </ul>",
    "      </div>",
    "    </div>",
    trimTag "endif",
    "    <p>" ++ value "copyright_text" ++ "</p>",
    "  </div>",
    "</footer>",
    "<style>",
    "  .footer-" ++ instanceId ++ opened,
    "    background: " ++ value "bg_color" ++ ";",
    "    color: " ++ value "text_color" ++ ";",
    "    padding: 40px 20px;",
    "    text-align: center;",
    closed,
    "  .footer-" ++ instanceId ++ " a " ++ styles "color: inherit;",
    "  .footer-" ++ instanceId ++ " ul " ++ styles "list-style: none; margin: 0; padding: 0;",
    "  .footer-" ++ instanceId ++ " .footer-columns" ++ opened,
    "    display: grid;",
    "    grid-template-columns: repeat(3, 1fr);",
    "    gap: 24px;",
    "    text-align: left;",
    "    margin-bottom: 32px;",
    closed,
    "</style>"]

end Storefront.Stock
